import ChannelEmulator.Spec.FrameMux
import ChannelEmulator.Framing.Run

/-!
# The order in which a multiplexer serves its queue

`putq` writes the configured priority into the message block, and the base class appends the
block whatever that priority is.

* `run_holds`: **a multiplexer is a first-in first-out queue.** After any events it holds the
  frames that arrived, less as many of the first ones as were taken.
* `serves_by_priority_iff`: **the frame forwarded is always the one of the highest priority
  exactly when no frame overtakes**, that is, when no frame waits behind one of a lower priority
  at the time that one is forwarded.
-/

namespace ChannelEmulator.Mux

open Framing

namespace Handler

variable (m : Handler)

/-! ## Frames on their way through -/

/-- The configured priority of a frame. -/
def priorityOf (f : Frame) : ℤ :=
  match m.getIdentifier f.octets with
  | .ok identifier => m.getPriority identifier
  | .error _ => m.defaultPriority

/-- The frame passes the tests of `svc`, and there is an output to send it to. -/
def Forwards (f : Frame) : Prop :=
  m.connected ∧
    match m.kind with
    | .aosVC => f.octets.length = m.frameSize ∧
        (AOS.getMCID f.octets = .ok m.getMCID ∨ m.dropBadFrames = false)
    | .aosMC | .tmMC => f.octets.length = m.frameSize ∨ m.dropBadFrames = false
    | .tmVC => (f.octets.length = m.frameSize ∧ TM.getMCID f.octets = .ok m.getMCID) ∨
        m.dropBadFrames = false

/-- The message block of a frame. -/
def message (f : Frame) (block : ℕ) : Message := ⟨block, f, (m.priorityOf f % 2 ^ 64).toNat⟩

end Handler

/-- A header can be read. -/
theorem Frame.octets_eq (f : Frame) : ∃ a b t, f.octets = a :: b :: t := by
  obtain ⟨octets, header⟩ := f
  rcases octets with _ | ⟨a, _ | ⟨b, t⟩⟩
  · exact absurd header (by decide)
  · exact absurd header (by simp [TM.spanPrimaryHeader])
  · exact ⟨a, b, t, rfl⟩

variable {m : Handler}

theorem getIdentifier_ok (m : Handler) (f : Frame) :
    ∃ identifier, m.getIdentifier f.octets = .ok identifier := by
  obtain ⟨a, b, t, h⟩ := f.octets_eq
  unfold Handler.getIdentifier
  rw [h]
  -- each accessor reads the first two octets only
  cases m.kind <;> exact ⟨_, rfl⟩

theorem putq_ok (m : Handler) (s : State) (f : Frame) :
    m.putq s f =
      .ok { s with queue := s.queue ++ [m.message f s.arrived], arrived := s.arrived + 1 } := by
  obtain ⟨identifier, h⟩ := getIdentifier_ok m f
  simp only [Handler.putq, h, Handler.message, Handler.priorityOf, bind, Except.bind, pure,
    Except.pure]

theorem addErrorControl_ok (m : Handler) (f : Frame) :
    ∃ u, m.addErrorControlIfPossible f.octets = .ok u := by
  have hlen := f.header
  unfold TM.spanPrimaryHeader at hlen
  unfold Handler.addErrorControlIfPossible TM.initializeCRC storeAt
  split
  · rw [if_neg (by unfold TM.spanFrameErrorControlField; omega),
      if_neg (by simp only [fromU16, List.length_cons, List.length_nil,
        TM.spanFrameErrorControlField]; omega)]
    exact ⟨_, rfl⟩
  · exact ⟨_, rfl⟩

/-! ## What one pass forwards -/

section Tests

variable (m) (k : Tallies) (f : Frame)

theorem svcAosVC_spec : ∃ k' sent, m.svcAosVC k f.octets = .ok (k', sent) ∧
    (sent.isSome ↔ f.octets.length = m.frameSize ∧
      (AOS.getMCID f.octets = .ok m.getMCID ∨ m.dropBadFrames = false)) := by
  obtain ⟨a, b, t, h⟩ := f.octets_eq
  obtain ⟨mcid, hmcid⟩ : ∃ mcid, AOS.getMCID f.octets = .ok mcid := by rw [h]; exact ⟨_, rfl⟩
  unfold Handler.svcAosVC
  by_cases hlen : f.octets.length = m.frameSize
  · rw [if_neg (not_not.2 hlen), hmcid]
    by_cases hbad : mcid = m.getMCID <;> cases hdrop : m.dropBadFrames <;>
      simp [bind, Except.bind, pure, Except.pure, hbad, hlen]
  · rw [if_pos hlen]
    exact ⟨_, _, rfl, by simp [hlen]⟩

theorem svcAosMC_spec : ∃ k' sent, m.svcAosMC k f.octets = .ok (k', sent) ∧
    (sent.isSome ↔ f.octets.length = m.frameSize ∨ m.dropBadFrames = false) := by
  unfold Handler.svcAosMC
  by_cases hlen : f.octets.length = m.frameSize <;> cases hdrop : m.dropBadFrames <;> simp [hlen]

theorem svcTmVC_spec : ∃ k' sent, m.svcTmVC k f.octets = .ok (k', sent) ∧
    (sent.isSome ↔ (f.octets.length = m.frameSize ∧ TM.getMCID f.octets = .ok m.getMCID) ∨
      m.dropBadFrames = false) := by
  obtain ⟨a, b, t, h⟩ := f.octets_eq
  obtain ⟨mcid, hmcid⟩ : ∃ mcid, TM.getMCID f.octets = .ok mcid := by rw [h]; exact ⟨_, rfl⟩
  obtain ⟨u, hu⟩ := addErrorControl_ok m f
  unfold Handler.svcTmVC
  rw [hmcid, hu]
  by_cases hlen : f.octets.length = m.frameSize <;> by_cases hbad : mcid = m.getMCID <;>
    cases hdrop : m.dropBadFrames <;>
      simp [bind, Except.bind, pure, Except.pure, hlen, hbad]

theorem svcTmMC_spec : ∃ k' sent, m.svcTmMC k f.octets = .ok (k', sent) ∧
    (sent.isSome ↔ f.octets.length = m.frameSize ∨ m.dropBadFrames = false) := by
  obtain ⟨u, hu⟩ := addErrorControl_ok m f
  unfold Handler.svcTmMC
  rw [hu]
  by_cases hlen : f.octets.length = m.frameSize <;> cases hdrop : m.dropBadFrames <;>
    simp [bind, Except.bind, pure, Except.pure, hlen]

/-- No pass faults, and the frames that pass the tests go to the output. -/
theorem multiplex_spec : ∃ k' sent, m.multiplex k f.octets = .ok (k', sent) ∧
    (m.Forwards f ↔ m.connected ∧ sent.isSome) := by
  unfold Handler.multiplex Handler.Forwards
  cases m.kind with
  | aosVC =>
    obtain ⟨k', sent, h, hsent⟩ := svcAosVC_spec m k f
    exact ⟨k', sent, h, and_congr_right fun _ => hsent.symm⟩
  | aosMC =>
    obtain ⟨k', sent, h, hsent⟩ := svcAosMC_spec m k f
    exact ⟨k', sent, h, and_congr_right fun _ => hsent.symm⟩
  | tmVC =>
    obtain ⟨k', sent, h, hsent⟩ := svcTmVC_spec m k f
    exact ⟨k', sent, h, and_congr_right fun _ => hsent.symm⟩
  | tmMC =>
    obtain ⟨k', sent, h, hsent⟩ := svcTmMC_spec m k f
    exact ⟨k', sent, h, and_congr_right fun _ => hsent.symm⟩

end Tests

/-- One pass takes the head of the queue, and forwards nothing else. -/
theorem svc_cons (m : Handler) {s : State} {msg : Message} {queue : List Message}
    (h : s.queue = msg :: queue) :
    ∃ tallies sent, m.svc s = .ok ({ s with queue := queue, tallies := tallies }, sent) ∧
      (∀ b u, sent = some (b, u) → b = msg) ∧ (m.Forwards msg.frame ↔ sent.isSome) := by
  obtain ⟨k', sent, hk, hsent⟩ := multiplex_spec m s.tallies msg.frame
  simp only [Handler.svc, h, hk, bind, Except.bind, pure, Except.pure]
  refine ⟨k', _, rfl, ?_, ?_⟩
  · intro b u hb
    split at hb
    · obtain ⟨u', -, hu⟩ := Option.map_eq_some_iff.1 hb
      exact (Prod.mk.inj hu).1.symm
    · exact absurd hb (by simp)
  · rw [hsent]
    cases m.connected <;> simp

theorem svc_nil (m : Handler) {s : State} (h : s.queue = []) : m.svc s = .ok (s, none) := by
  simp only [Handler.svc, h]

/-! ## Runs -/

/-- The frames that arrive. -/
def arrivals : List Event → List Frame
  | [] => []
  | .arrive f :: es => f :: arrivals es
  | .serve :: es => arrivals es

/-- How many message blocks have been taken from the queue after some more events. -/
def takenAfter (arrived taken : ℕ) : List Event → ℕ
  | [] => taken
  | .arrive _ :: es => takenAfter (arrived + 1) taken es
  | .serve :: es => takenAfter arrived (if taken < arrived then taken + 1 else taken) es

/-- How many message blocks are taken from the queue. -/
def taken (es : List Event) : ℕ := takenAfter 0 0 es

/-- The state after the frames `fs` arrived and `t` of them were taken. -/
structure Holds (m : Handler) (fs : List Frame) (t : ℕ) (s : State) : Prop where
  arrived : s.arrived = fs.length
  taken_le : t ≤ fs.length
  queue : s.queue = (fs.mapIdx fun i f => m.message f i).drop t

variable {fs : List Frame} {t : ℕ} {s : State}

theorem Holds.arrive (h : Holds m fs t s) (f : Frame) :
    ∃ s', m.step s (.arrive f) = .ok (s', []) ∧ Holds m (fs ++ [f]) t s' := by
  have hstep : m.step s (.arrive f) = .ok
      ({ s with queue := s.queue ++ [m.message f s.arrived], arrived := s.arrived + 1 }, []) := by
    simp only [Handler.step, putq_ok, bind, Except.bind, pure, Except.pure]
  have hle := h.taken_le
  refine ⟨_, hstep, ?_⟩
  constructor
  · simp [h.arrived]
  · simp only [List.length_append]
    omega
  · rw [List.mapIdx_append, List.drop_append_of_le_length (by simpa using hle)]
    simp [h.queue, h.arrived]

/-- What is at the head of the queue. -/
theorem Holds.queue_eq (h : Holds m fs t s) {f : Frame} (hf : fs[t]? = some f) :
    s.queue = m.message f t :: (fs.mapIdx fun i f => m.message f i).drop (t + 1) := by
  rw [h.queue, List.drop_eq_getElem?_toList_append, List.getElem?_mapIdx, hf]
  rfl

theorem Holds.serve (h : Holds m fs t s) :
    ∃ s' o, m.step s .serve = .ok (s', o) ∧
      Holds m fs (if t < fs.length then t + 1 else t) s' := by
  by_cases ht : t < fs.length
  · have hf : fs[t]? = some fs[t] := List.getElem?_eq_getElem ht
    obtain ⟨tallies, sent, hsvc, -, -⟩ := svc_cons m (h.queue_eq hf)
    have hstep : ∃ s', m.step s .serve = .ok (s', sent.toList) ∧ Holds m fs (t + 1) s' := by
      simp only [Handler.step, hsvc, bind, Except.bind, pure, Except.pure]
      exact ⟨_, rfl, h.arrived, ht, rfl⟩
    obtain ⟨s', hs', hholds⟩ := hstep
    rw [if_pos ht]
    exact ⟨s', sent.toList, hs', hholds⟩
  · have hnil : s.queue = [] := by
      rw [h.queue]
      apply List.drop_eq_nil_of_le
      rw [List.length_mapIdx]
      omega
    refine ⟨s, [], by simp [Handler.step, svc_nil m hnil, bind, Except.bind, pure, Except.pure], ?_⟩
    rw [if_neg ht]
    exact h

theorem Holds.run (h : Holds m fs t s) (es : List Event) :
    ∃ s' o, runAll m.step s es = .ok (s', o) ∧
      Holds m (fs ++ arrivals es) (takenAfter fs.length t es) s' := by
  induction es generalizing fs t s with
  | nil => exact ⟨s, [], rfl, by simpa [arrivals, takenAfter] using h⟩
  | cons e es ih =>
    cases e with
    | arrive f =>
      obtain ⟨s₁, h₁, hs₁⟩ := h.arrive f
      obtain ⟨s₂, o₂, h₂, hs₂⟩ := ih hs₁
      refine ⟨s₂, _, runAll_cons h₁ h₂, ?_⟩
      simpa [arrivals, takenAfter] using hs₂
    | serve =>
      obtain ⟨s₁, o₁, h₁, hs₁⟩ := h.serve
      obtain ⟨s₂, o₂, h₂, hs₂⟩ := ih hs₁
      exact ⟨s₂, _, runAll_cons h₁ h₂, hs₂⟩

/-- **A multiplexer is a first-in first-out queue.** -/
theorem run_holds (m : Handler) (es : List Event) :
    ∃ s o, runAll m.step {} es = .ok (s, o) ∧ Holds m (arrivals es) (taken es) s := by
  have hnone : Holds m [] 0 {} := ⟨rfl, le_rfl, rfl⟩
  simpa [taken] using hnone.run es

/-! ## The order -/

/-- Every service forwards, if anything, a frame of the highest priority of all that wait, and
of these the first that arrived. -/
def ServesByPriority (m : Handler) (es : List Event) : Prop :=
  ∀ pre post, es = pre ++ .serve :: post →
    ∃ s o s' sent, runAll m.step {} pre = .ok (s, o) ∧ m.svc s = .ok (s', sent) ∧
      ∀ b u, sent = some (b, u) → ∀ w ∈ s.queue, m.priorityOf w.frame ≤ m.priorityOf b.frame ∧
        (m.priorityOf w.frame = m.priorityOf b.frame → b.block ≤ w.block)

/-- No frame that is to be forwarded has one of a higher priority behind it when its turn
comes. -/
def NeverOvertaken (m : Handler) (es : List Event) : Prop :=
  ∀ pre post, es = pre ++ .serve :: post →
    ∀ f, (arrivals pre)[taken pre]? = some f → m.Forwards f →
      ∀ i, taken pre < i → ∀ g, (arrivals pre)[i]? = some g → m.priorityOf g ≤ m.priorityOf f

theorem mem_waiting {w : Message} :
    w ∈ (fs.mapIdx fun i f => m.message f i).drop t ↔
      ∃ i g, t ≤ i ∧ fs[i]? = some g ∧ w = m.message g i := by
  rw [List.mem_iff_getElem?]
  constructor
  · rintro ⟨i, hi⟩
    rw [List.getElem?_drop, List.getElem?_mapIdx] at hi
    obtain ⟨g, hg, hw⟩ := Option.map_eq_some_iff.1 hi
    exact ⟨t + i, g, Nat.le_add_right t i, hg, hw.symm⟩
  · rintro ⟨i, g, hti, hg, rfl⟩
    refine ⟨i - t, ?_⟩
    rw [List.getElem?_drop, List.getElem?_mapIdx, Nat.add_sub_cancel' hti, hg]
    rfl

/-- The multiplexer serves by priority exactly when no frame is overtaken. -/
theorem serves_by_priority_iff (m : Handler) (es : List Event) :
    ServesByPriority m es ↔ NeverOvertaken m es := by
  apply forall_congr'
  intro pre
  apply forall_congr'
  intro post
  apply imp_congr_right
  intro _
  obtain ⟨s, o, hrun, hs⟩ := run_holds m pre
  constructor
  · -- what waits behind the frame is in the queue
    rintro ⟨s₀, o₀, s', sent, hrun₀, hsvc, hsent⟩ f hf hfwd i hi g hg
    obtain ⟨rfl, rfl⟩ := Prod.mk.inj (Except.ok.inj (hrun.symm.trans hrun₀))
    obtain ⟨tallies, sent', hsvc', hhead, hsome⟩ := svc_cons m (hs.queue_eq hf)
    obtain ⟨-, rfl⟩ := Prod.mk.inj (Except.ok.inj (hsvc.symm.trans hsvc'))
    obtain ⟨⟨b, u⟩, hb⟩ := Option.isSome_iff_exists.1 (hsome.1 hfwd)
    obtain rfl := hhead b u hb
    have hw : m.message g i ∈ s.queue := by
      rw [hs.queue]
      exact mem_waiting.2 ⟨i, g, Nat.le_of_lt hi, hg, rfl⟩
    exact (hsent _ u hb _ hw).1
  · intro hnever
    cases hf : (arrivals pre)[taken pre]? with
    | none =>
      -- nothing waits
      have hnil : s.queue = [] := by
        rw [hs.queue]
        apply List.drop_eq_nil_of_le
        simpa using hf
      exact ⟨s, o, s, none, hrun, svc_nil m hnil, fun b u h => absurd h (by simp)⟩
    | some f =>
      obtain ⟨tallies, sent, hsvc, hhead, hsome⟩ := svc_cons m (hs.queue_eq hf)
      refine ⟨s, o, _, sent, hrun, hsvc, ?_⟩
      intro b u hb w hw
      obtain rfl := hhead b u hb
      have hfwd : m.Forwards f := hsome.2 (by rw [hb]; rfl)
      rw [hs.queue] at hw
      obtain ⟨i, g, hi, hg, rfl⟩ := mem_waiting.1 hw
      refine ⟨?_, fun _ => hi⟩
      rcases Nat.eq_or_lt_of_le hi with rfl | hlt
      · rw [hf] at hg
        obtain rfl := Option.some.inj hg
        exact Int.le_refl _
      · exact hnever f hf hfwd i hlt g hg

/-- A virtual channel multiplexer with the priorities 5 for the virtual channel 1 and 10 for the
virtual channel 2. -/
def twoPriorities : Handler :=
  { kind := .aosVC, frameSize := 6, channelIDPriorities := [(1, 5), (2, 10)] }

/-- A frame of the virtual channel 1. -/
def firstFrame : Frame := ⟨[0x40, 0x01, 0, 0, 0, 0], by decide⟩

/-- A frame of the virtual channel 2. -/
def secondFrame : Frame := ⟨[0x40, 0x02, 0, 0, 0, 0], by decide⟩

/-- Of two frames that wait the one that arrived first is forwarded, with the lower priority. -/
theorem lower_priority_first :
    ¬ ServesByPriority twoPriorities [.arrive firstFrame, .arrive secondFrame, .serve] := by
  intro h
  obtain ⟨s, o, s', sent, hrun, hsvc, hsent⟩ := h [.arrive firstFrame, .arrive secondFrame] [] rfl
  have hboth : runAll twoPriorities.step {} [.arrive firstFrame, .arrive secondFrame] =
      .ok (⟨[⟨0, firstFrame, 5⟩, ⟨1, secondFrame, 10⟩], 2, {}⟩, []) := by decide
  obtain ⟨rfl, rfl⟩ := Prod.mk.inj (Except.ok.inj (hboth.symm.trans hrun))
  have hfirst : twoPriorities.svc ⟨[⟨0, firstFrame, 5⟩, ⟨1, secondFrame, 10⟩], 2, {}⟩ =
      .ok (⟨[⟨1, secondFrame, 10⟩], 2, ⟨1, 0, 0⟩⟩, some (⟨0, firstFrame, 5⟩, firstFrame.octets)) := by
    decide
  obtain ⟨rfl, rfl⟩ := Prod.mk.inj (Except.ok.inj (hfirst.symm.trans hsvc))
  have hle := (hsent _ _ rfl ⟨1, secondFrame, 10⟩ (by simp)).1
  exact absurd hle (by decide)

end ChannelEmulator.Mux
