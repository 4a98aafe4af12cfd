import ChannelEmulator.Framing.Loss
import ChannelEmulator.Proof.Multiplexing

/-!
# M_PDUs lost on the way

* `Tracking`: what the receiver has stashed after some zones were received and others lost.
* `Tracking.first`, `Tracking.continued`, `Tracking.lose`: one zone.
* `recovers_from_loss`: **what lies in the M_PDUs received is delivered**, whichever are
  lost. What is put together over a gap is delivered too when its length happens to fit.
-/

namespace ChannelEmulator.Multiplexing

open Framing

/-- Octets that begin with a part of a packet that was sent. -/
def Cut (packets : List Bytes) (g : Bytes) : Prop :=
  ∃ q ∈ packets, ∃ m, 0 < m ∧ m < q.length ∧ q.take m <+: g

/-- The start of a packet that was sent, and other octets behind it up to its length. -/
def Spliced (packets : List Bytes) (x : Bytes) : Prop :=
  Cut packets x ∧ Encap.expectedLength x = .ok x.length

variable {packets : List Bytes}

theorem Cut.append {g : Bytes} (h : Cut packets g) (x : Bytes) : Cut packets (g ++ x) := by
  obtain ⟨q, hq, m, h₁, h₂, hpre⟩ := h
  exact ⟨q, hq, m, h₁, h₂, hpre.trans (List.prefix_append _ _)⟩

theorem Cut.start {a r : Bytes} (hp : a ++ r ∈ packets) (ha : a ≠ []) (hr : r ≠ []) :
    Cut packets a := by
  have h₁ := List.length_pos_iff.2 ha
  have h₂ := List.length_pos_iff.2 hr
  exact ⟨a ++ r, hp, a.length, h₁, by rw [List.length_append]; omega, by simp⟩

theorem Cut.first {g : Bytes} (h : Cut packets g) (hpk : ∀ p ∈ packets, Encap.WellFormed p) :
    ∃ first, g.head? = some first ∧ 2 ≤ first.toNat % 4 := by
  obtain ⟨q, hq, m, h₁, h₂, t, rfl⟩ := h
  obtain ⟨first, rest, rfl, hlol, -⟩ := hpk q hq
  obtain ⟨m, rfl⟩ : ∃ k, m = k + 1 := ⟨m - 1, by omega⟩
  exact ⟨first, rfl, hlol⟩

/-- Where a gap follows on the octets `t` of a packet, these and the octets ahead of the
first header behind the gap hold the packet's header. -/
def HeadersComplete : Bytes → Bool → List Bool → List (Zone Octet) → Prop
  | t, _, false :: ks, _ :: zs => HeadersComplete t true ks zs
  | t, gap, true :: ks, z :: zs =>
    (gap = true → z.lead ≠ [] → z.header ≠ none → ∀ first, t.head? = some first →
      Encap.minBytesToDetermineLength first ≤ t.length + z.lead.length) ∧
    HeadersComplete z.trail false ks zs
  | _, _, _, _ => True

namespace Remove

variable {s : Remove} {z : Zone Octet}

/-! ## Zones received with something else stashed, or nothing -/

theorem stash_nil (h : Stash s []) : s.encap = none := by
  by_contra hne
  obtain ⟨c, hc⟩ := Option.ne_none_iff_exists'.1 hne
  rw [Stash, hc] at h
  exact h.head_ne (List.append_eq_nil_iff.1 h.flatten_eq).1

/-- The rest of a packet with nothing stashed is passed over. -/
theorem zone_unstashed (hn : s.encap = none) (hl : z.lead ≠ []) (hZ : z.flat.length ≤ 2046)
    (ht : Tidy s.multiPacketZone z) (hu : Unfinished z.trail) :
    ∃ s', s.assembleEncap (encode z) = .ok (s', Add.unfilled z.whole) ∧ Stash s' z.trail ∧
      SameSetup s s' := by
  obtain ⟨hci, hle, hhl⟩ := continued_index ht hZ hl
  have hlt := List.length_pos_iff.2 hl
  have hfl : z.lead.length ≤ z.flat.length := by simp [Zone.flat]
  have hpass : s.pass z.flat (indexOf z) 0 = .ok (s, [],
      if z.whole = [] ∧ z.trail = [] then none else some z.lead.length) := by
    rw [pass, hn]
    show s.startPacket z.flat (indexOf z) 0 = _
    unfold startPacket
    simp only [hci, decide_true, Bool.and_self, if_true]
    by_cases hw : z.whole = [] ∧ z.trail = []
    · rw [if_pos (hhl.2 hw), if_pos hw]
    · have hne : ¬ hasHeaderlessData (indexOf z) = true := fun h => hw (hhl.1 h)
      rw [if_neg hne] at hle
      rw [if_neg hne, if_neg hw, hle, Nat.zero_add]
  rw [assembleEncap_encode ht hZ]
  by_cases hw : z.whole = [] ∧ z.trail = []
  · rw [if_pos hw] at hpass
    rw [hw.1, hw.2]
    exact ⟨s, loop_break (by omega) hpass, by rw [Stash, hn], rfl⟩
  · rw [if_neg hw] at hpass
    obtain ⟨s', hloop, hst, hsame⟩ := zone_items ht hu hn (Or.inr hlt)
      (by omega : z.flat.length ≤ 2 * z.flat.length)
    exact ⟨s', loop_next (by omega) hpass hloop, hst, hsame⟩

/-- A packet starts the zone: what is stashed is dropped. -/
theorem zone_afresh {g : Bytes} (hs : Stash s g) (hg : g ≠ []) (hl : z.lead = [])
    (hpos : 0 < z.flat.length) (hZ : z.flat.length ≤ 2046) (ht : Tidy s.multiPacketZone z)
    (hu : Unfinished z.trail) :
    ∃ s', s.assembleEncap (encode z) = .ok (s', Add.unfilled z.whole) ∧ Stash s' z.trail ∧
      SameSetup s.dropEncap s' := by
  obtain ⟨c, hc, hh⟩ := stash_some hs hg
  obtain ⟨b, t, hb⟩ : ∃ b t, c.head = b :: t := by
    cases h : c.head with
    | nil => exact absurd h hh.head_ne
    | cons b t => exact ⟨b, t, rfl⟩
  have hi : indexOf z = 0 := by
    rw [indexOf, Zone.header, if_neg, hl]
    · rfl
    · rintro ⟨hw, htr⟩
      rw [Zone.flat, hl, hw, htr] at hpos
      exact absurd hpos (by simp)
  have hpass : s.pass z.flat (indexOf z) 0 = .ok (s.dropEncap, [], some 0) := by
    rw [pass, hc, hi]
    show s.continuePacket c z.flat 0 0 = _
    unfold continuePacket
    rw [hb, show octetAt (b :: t) 0 = .ok b from rfl]
    rfl
  rw [assembleEncap_encode ht hZ]
  obtain ⟨s', hloop, hst, hsame⟩ := zone_items (s := s.dropEncap) ht hu rfl
    (Or.inl (by rw [hi]; decide)) (by omega : z.flat.length ≤ 2 * z.flat.length)
  rw [hl] at hloop
  exact ⟨s', loop_next hpos hpass hloop, hst, hsame⟩

/-! ## What is stashed -/

/-- Before zone `n`, of which `a` is the start that went before. The receiver has stashed
`g`, which is `a` when all of it was received; `t` is the trail of the last zone received,
and `gap` tells that zones were lost since. -/
structure Tracking (packets : List Bytes) (Z : ℕ) (keep : List Bool) (n : ℕ) (a t : Bytes)
    (gap : Bool) (s : Remove) (g : Bytes) : Prop where
  stash : Stash s g
  cut : g ≠ [] → Cut packets g
  header : ∀ first, g.head? = some first → g.length < Encap.minBytesToDetermineLength first →
    g = t ∧ (gap = false → g = a)
  sync : a ≠ [] → received keep ((n * Z - a.length) / Z) n = true → g = a
  le : a.length ≤ n * Z

variable {Z n : ℕ} {keep : List Bool} {a t g : Bytes} {gap : Bool}

/-- The start of a packet that the zone leaves open. -/
def Opens (packets : List Bytes) (trail : Bytes) : Prop :=
  trail ≠ [] → ∃ r, r ≠ [] ∧ trail ++ r ∈ packets

theorem Opens.unfinished {trail : Bytes} (h : Opens packets trail)
    (hpk : ∀ p ∈ packets, Encap.WellFormed p) : Unfinished trail := by
  by_cases ht : trail = []
  · exact Or.inl ht
  obtain ⟨r, hr, hp⟩ := h ht
  have := List.length_pos_iff.2 hr
  exact Or.inr ⟨trail ++ r, trail.length, hpk _ hp, by rw [List.take_left],
    by rw [List.length_append]; omega⟩

theorem Tracking.of_stash (hs : Stash s t) (ho : Opens packets t) (hle : t.length ≤ n * Z) :
    Tracking packets Z keep n t t false s t := by
  refine ⟨hs, fun ht => ?_, fun _ _ _ => ⟨rfl, fun _ => rfl⟩, fun _ _ => rfl, hle⟩
  obtain ⟨r, hr, hp⟩ := ho ht
  exact Cut.start hp ht hr

/-- Zone `n` is lost. -/
theorem Tracking.lose (h : Tracking packets Z keep n a t gap s g) (hk : keep.getD n false = false)
    {a' : Bytes} (hle : a'.length ≤ (n + 1) * Z) :
    Tracking packets Z keep (n + 1) a' t true s g := by
  refine ⟨h.stash, h.cut, fun first hf hlt => ⟨(h.header first hf hlt).1, by simp⟩, ?_, hle⟩
  intro ha hr
  have hlt := position_lt ha hle
  rw [received_succ (by omega), hk] at hr
  exact absurd hr.2 Bool.false_ne_true

/-- Zone `n` is received and starts with a packet. -/
theorem Tracking.first (h : Tracking packets Z keep n [] t gap s g)
    (hpk : ∀ p ∈ packets, Encap.WellFormed p) (h8 : 8 ≤ Z) (hZ : Z ≤ 2046)
    (hfull : z.flat.length = Z) (ht : Tidy s.multiPacketZone z) (hl : z.lead = [])
    (ho : Opens packets z.trail) :
    ∃ s', s.assembleEncap (encode z) = .ok (s', Add.unfilled z.whole) ∧
      s'.multiPacketZone = s.multiPacketZone ∧
      Tracking packets Z keep (n + 1) z.trail z.trail false s' z.trail := by
  have hle : z.trail.length ≤ (n + 1) * Z := trail_le hfull
  by_cases hg : g = []
  · obtain ⟨s', hrun, hst, hsame⟩ := zone_first ht (by omega) (by omega) (ho.unfinished hpk) hl
      (hg ▸ h.stash)
    exact ⟨s', hrun, by rw [hsame], .of_stash hst ho hle⟩
  · obtain ⟨s', hrun, hst, hsame⟩ := zone_afresh h.stash hg hl (by omega) (by omega) ht
      (ho.unfinished hpk)
    exact ⟨s', hrun, by rw [hsame]; rfl, .of_stash hst ho hle⟩

/-- Octets of a packet that are stashed meet zone `n`, which goes on with a packet. -/
theorem Tracking.meets (h : Tracking packets Z keep n a t gap s g) (hg : g ≠ [])
    (hpk : ∀ p ∈ packets, Encap.WellFormed p) {r : Bytes} (hp : a ++ z.lead ++ r ∈ packets)
    (ha : a ≠ []) (hl : z.lead ≠ []) (hr : r ≠ [] → z.whole = [] ∧ z.trail = []) (h8 : 8 ≤ Z)
    (hZ : Z ≤ 2046) (hfull : z.flat.length = Z) (ht : Tidy s.multiPacketZone z)
    (ho : Opens packets z.trail)
    (hcond : gap = true → z.header ≠ none → ∀ first, t.head? = some first →
      Encap.minBytesToDetermineLength first ≤ t.length + z.lead.length) :
    ∃ L, Meets s g z L ∧ (g = a → L = (a ++ z.lead ++ r).length) := by
  obtain ⟨first, hf, hlol⟩ := (h.cut hg).first hpk
  have hmin : Encap.minBytesToDetermineLength first ≤ (g ++ z.lead).length := by
    rw [List.length_append]
    by_cases hlt : Encap.minBytesToDetermineLength first ≤ g.length
    · omega
    obtain ⟨rfl, hga⟩ := h.header first hf (by omega)
    -- a zone without a header is full of octets of the packet
    by_cases hw : z.whole = [] ∧ z.trail = []
    · have : z.flat.length = z.lead.length := by simp [Zone.flat, hw.1, hw.2]
      have := Encap.headerOctets_le first
      omega
    cases hgap : gap with
    | true =>
      refine hcond hgap ?_ first hf
      rw [Zone.header, if_neg hw]
      simp
    | false =>
      obtain rfl := hga hgap
      obtain rfl : r = [] := by by_contra hc; exact hw (hr hc)
      obtain ⟨b, u, rfl⟩ : ∃ b u, g = b :: u := by
        cases g with
        | nil => exact absurd rfl hg
        | cons b u => exact ⟨b, u, rfl⟩
      obtain rfl : b = first := Option.some.inj hf
      have hlen : Encap.minBytesToDetermineLength b ≤ (b :: u ++ z.lead ++ []).length :=
        (wellFormed_first (hpk _ hp) rfl).2.1
      rwa [List.append_nil, List.length_append] at hlen
  have hf' : (g ++ z.lead).head? = some first := by
    cases g with
    | nil => exact absurd rfl hg
    | cons b u => exact hf
  obtain ⟨L, hL⟩ := Encap.expectedLength_ok hf' (by omega) hmin
  have hm : Meets s g z L := by
    refine ⟨h.stash, hg, hl, by omega, ht, ho.unfinished hpk, fun f hf₁ => ?_, hL⟩
    obtain rfl : first = f := Option.some.inj (hf.symm.trans hf₁)
    exact ⟨hlol, hmin⟩
  refine ⟨L, hm, fun hga => ?_⟩
  subst hga
  have hpf : (g ++ z.lead ++ r).head? = some first := by
    cases g with
    | nil => exact absurd rfl hg
    | cons b u => exact hf
  have hexp := expectedLength_prefix (hpk _ hp) hpf hmin
  rw [List.take_left, hL] at hexp
  exact Except.ok.inj hexp

/-- Zone `n` is received and goes on with a packet, of which `r` is still to come. -/
theorem Tracking.continued (h : Tracking packets Z keep n a t gap s g)
    (hpk : ∀ p ∈ packets, Encap.WellFormed p) {r : Bytes} (hp : a ++ z.lead ++ r ∈ packets)
    (ha : a ≠ []) (hl : z.lead ≠ []) (hr : r ≠ [] → z.whole = [] ∧ z.trail = []) (h8 : 8 ≤ Z)
    (hZ : Z ≤ 2046) (hfull : z.flat.length = Z) (ht : Tidy s.multiPacketZone z)
    (ho : Opens packets z.trail)
    (hcond : gap = true → z.header ≠ none → ∀ first, t.head? = some first →
      Encap.minBytesToDetermineLength first ≤ t.length + z.lead.length) :
    ∃ s' g' joined, s.assembleEncap (encode z) = .ok (s', joined ++ Add.unfilled z.whole) ∧
      s'.multiPacketZone = s.multiPacketZone ∧
      Tracking packets Z keep (n + 1) (if r = [] then z.trail else a ++ z.lead) z.trail false s' g' ∧
      (∀ x ∈ joined, Spliced packets x) ∧
      (r = [] → received keep ((n * Z - a.length) / Z) (n + 1) = true → joined = [a ++ z.lead]) := by
  have hpos := position_lt ha h.le
  have hle : z.trail.length ≤ (n + 1) * Z := trail_le hfull
  have hin : received keep ((n * Z - a.length) / Z) (n + 1) = true → g = a := fun hrec =>
    h.sync ha ((received_succ (by omega)).1 hrec).1
  -- what follows when the packet is not put together from its own start
  have hlost : ∀ {s'}, Stash s' z.trail → (g ≠ a ∨ r = []) →
      Tracking packets Z keep (n + 1) (if r = [] then z.trail else a ++ z.lead) z.trail false s'
        z.trail := by
    intro s' hst hga
    by_cases hr0 : r = []
    · rw [if_pos hr0]
      exact .of_stash hst ho hle
    · have hw := hr hr0
      have hlen : z.lead.length = Z := by
        rw [← hfull]; simp [Zone.flat, hw.1, hw.2]
      rw [if_neg hr0]
      rw [hw.2] at hst ⊢
      refine ⟨hst, fun hc => absurd rfl hc, fun f hf => absurd hf (by simp), fun _ hrec => ?_, ?_⟩
      · rw [position_mid hlen h.le] at hrec
        exact absurd (hin hrec) (hga.resolve_right hr0)
      · have := h.le
        rw [List.length_append, Nat.succ_mul]; omega
  by_cases hg : g = []
  · have hne : g ≠ a := fun hga => ha (hga ▸ hg)
    obtain ⟨s', hrun, hst, hsame⟩ := zone_unstashed (stash_nil (hg ▸ h.stash)) hl (by omega) ht
      (ho.unfinished hpk)
    exact ⟨s', _, [], hrun, by rw [hsame], hlost hst (Or.inl hne), by simp,
      fun _ hrec => absurd (hin hrec) hne⟩
  obtain ⟨L, hm, hga⟩ := h.meets hg hpk hp ha hl hr h8 hZ hfull ht ho hcond
  have hlen : g = a → L = (g ++ z.lead).length + r.length := fun h => by
    rw [hga h, h, List.length_append]
  rcases Nat.lt_trichotomy (g ++ z.lead).length L with hlt | heq | hgt
  · by_cases hw : z.whole = [] ∧ z.trail = []
    · obtain ⟨s', hrun, hst, hsame⟩ := hm.waits hw.1 hw.2 hlt
      refine ⟨s', g ++ z.lead, [], by rw [hrun, hw.1]; rfl, by rw [hsame], ?_, by simp, ?_⟩
      · have hzl : z.lead.length = Z := by rw [← hfull]; simp [Zone.flat, hw.1, hw.2]
        refine ⟨hst, fun _ => (h.cut hg).append _, fun first hf hshort => ?_, fun ha' hrec => ?_, ?_⟩
        · obtain ⟨f, hgf, -⟩ := (h.cut hg).first hpk
          have hff : (g ++ z.lead).head? = some f := by
            cases g with
            | nil => exact absurd rfl hg
            | cons b u => exact hgf
          obtain rfl : f = first := Option.some.inj (hff.symm.trans hf)
          exact absurd (hm.header f hgf).2 (by omega)
        · by_cases hr0 : r = []
          · rw [if_pos hr0, hw.2] at ha'
            exact absurd rfl ha'
          · rw [if_neg hr0] at hrec ⊢
            rw [position_mid hzl h.le] at hrec
            rw [hin hrec]
        · by_cases hr0 : r = []
          · rwa [if_pos hr0]
          · have := h.le
            rw [if_neg hr0, List.length_append, Nat.succ_mul]; omega
      · intro hr0 hrec
        have := hlen (hin hrec)
        rw [hr0, List.length_nil] at this
        omega
    · obtain ⟨s', hrun, hst, hsame⟩ := hm.dropped (by omega) fun h => absurd h hw
      have hr0 : r = [] := by by_contra hc; exact hw (hr hc)
      refine ⟨s', _, [], hrun, by rw [hsame]; rfl, hlost hst (Or.inr hr0), by simp, ?_⟩
      intro _ hrec
      have := hlen (hin hrec)
      rw [hr0, List.length_nil] at this
      omega
  · obtain ⟨s', hrun, hst, hsame⟩ := hm.completed heq
    refine ⟨s', _, [g ++ z.lead], hrun, by rw [hsame], hlost hst ?_, ?_, ?_⟩
    · by_cases hga' : g = a
      · have := hlen hga'
        exact Or.inr (List.length_eq_zero_iff.1 (by omega))
      · exact Or.inl hga'
    · intro x hx
      obtain rfl := List.mem_singleton.1 hx
      exact ⟨(h.cut hg).append _, by rw [hm.expected, heq]⟩
    · intro _ hrec
      rw [hin hrec]
  · obtain ⟨s', hrun, hst, hsame⟩ := hm.dropped (by omega) fun _ => by omega
    have hne : g ≠ a := fun h => by have := hlen h; omega
    exact ⟨s', _, [], hrun, by rw [hsame]; rfl, hlost hst (Or.inl hne), by simp,
      fun _ hrec => absurd (hin hrec) hne⟩

/-! ## All zones -/

/-- An item that two zones hold octets of is a packet. -/
theorem mem_of_split {x y : Bytes} (h : x ++ y ∈ packets ∨ x ++ y = fillPacket) (hx : x ≠ []) (hy : y ≠ []) :
    x ++ y ∈ packets := by
  refine h.resolve_right fun hf => ?_
  have h₁ := List.length_pos_iff.2 hx
  have h₂ := List.length_pos_iff.2 hy
  have hlen := congrArg List.length hf
  rw [List.length_append, fillPacket, List.length_singleton] at hlen
  omega

/-- What is carried behind the start of an item. -/
theorem opens_of_carries {b : Bytes} {zs : List (Zone Octet)} {items : List Bytes}
    (h : Carries b zs items []) (hi : ∀ x ∈ items, x ∈ packets ∨ x = fillPacket) :
    Opens packets b := by
  intro hb
  obtain ⟨r, rest, hr, rfl⟩ := h.exists_rest hb rfl
  exact ⟨r, hr, mem_of_split (hi _ (by simp)) hb hr⟩

theorem mem_unfilled {w : List Bytes} (hi : ∀ x ∈ w, x ∈ packets ∨ x = fillPacket) :
    ∀ x ∈ Add.unfilled w, x ∈ packets := by
  intro x hx
  rw [Add.unfilled, List.mem_filter] at hx
  exact (hi x hx.1).resolve_right (by simpa using hx.2)

/-- **Zones of which some are lost**: what survives is delivered, and nothing else but what
is put together over a gap. -/
theorem Tracking.run (hpk : ∀ p ∈ packets, Encap.WellFormed p) (h8 : 8 ≤ Z) (hZ : Z ≤ 2046)
    {zs ws : List (Zone Octet)} {items its : List Bytes} {b : Bytes} (hc : Carries a zs items b) :
    ∀ {s : Remove} {n : ℕ} {t g : Bytes} {gap : Bool}, Tracking packets Z keep n a t gap s g →
      Carries b ws its [] → (∀ x ∈ items ++ its, x ∈ packets ∨ x = fillPacket) →
      keep.length = n + zs.length → (∀ z ∈ zs, z.flat.length = Z) →
      (∀ z ∈ zs, Tidy s.multiPacketZone z) → HeadersComplete t gap (keep.drop n) zs →
        ∃ s' out, runAll assembleEncap s (kept (keep.drop n) (zs.map encode)) = .ok (s', out) ∧
          (Add.unfilled (survivors Z keep (n * Z - a.length) items)).Sublist out ∧
          ∀ x ∈ out, x ∈ packets ∨ Spliced packets x := by
  have hnonempty : ∀ {x : Bytes}, x ∈ packets ∨ x = fillPacket → x ≠ [] := by
    rintro x (hx | rfl)
    · obtain ⟨f, rest, rfl, -⟩ := hpk x hx
      simp
    · simp [fillPacket]
  induction hc with
  | nil a =>
    intro s n t g gap h _ _ hk _ _ _
    exact ⟨s, [], by rw [List.map_nil, kept_nil]; rfl, by simp [survivors, Add.unfilled], by simp⟩
  | @mid a lead zs items b ha hl hc ih =>
    -- the zone holds octets of one packet only, and the packet goes on
    intro s n t g gap h hb hi hk hfull htidy hhead
    obtain ⟨r, rest, hr, hitems⟩ := (hc.append hb).exists_rest (by simp [ha]) rfl
    have hlen : lead.length = Z := by
      have := hfull ⟨lead, [], []⟩ (by simp)
      simpa [Zone.flat] using this
    have hp : a ++ lead ++ r ∈ packets := by
      rw [List.append_assoc]
      exact mem_of_split (hi _ (by rw [hitems]; simp)) ha (by simp [hl])
    have hk' : keep.length = n + 1 + zs.length := by rw [hk, List.length_cons]; omega
    rw [drop_flag (by rw [hk, List.length_cons]; omega)] at hhead ⊢
    rw [← position_mid hlen h.le]
    cases hkn : keep.getD n false with
    | false =>
      rw [hkn] at hhead
      have hle : (a ++ lead).length ≤ (n + 1) * Z := by
        have := h.le
        rw [List.length_append, Nat.succ_mul]; omega
      exact ih (h.lose hkn hle) hb hi hk' (fun z hz => hfull z (by simp [hz]))
        (fun z hz => htidy z (by simp [hz])) hhead
    | true =>
      rw [hkn] at hhead
      obtain ⟨s₁, g', joined, hz, hmode, htrack, hjoin, -⟩ := h.continued hpk (z := ⟨lead, [], []⟩) hp
        ha hl (fun _ => ⟨rfl, rfl⟩) h8 hZ (hfull _ (by simp)) (htidy _ (by simp))
        (fun hc => absurd rfl hc) (fun hg => hhead.1 hg hl)
      rw [if_neg hr] at htrack
      obtain ⟨s₂, out, hrun, hsub, hout⟩ := ih htrack hb hi hk' (fun z hz => hfull z (by simp [hz]))
        (fun z hz => by rw [hmode]; exact htidy z (by simp [hz])) hhead.2
      refine ⟨s₂, _, runAll_cons hz hrun, hsub.trans (List.sublist_append_right _ _), ?_⟩
      intro x hx
      rcases List.mem_append.1 hx with hx | hx
      · rw [show Add.unfilled ([] : List Bytes) = [] from rfl, List.append_nil] at hx
        exact Or.inr (hjoin x hx)
      · exact hout x hx
  | @last a lead w trail zs items b ha hl hc ih =>
    -- the zone ends the open packet: it survives where all its zones were received
    intro s n t g gap h hb hi hk hfull htidy hhead
    rw [List.cons_append, List.append_assoc] at hi
    have hlen : (⟨lead, w, trail⟩ : Zone Octet).flat.length = Z := hfull _ (by simp)
    have hle : trail.length ≤ (n + 1) * Z := trail_le hlen
    have hw : ∀ x ∈ w, x ∈ packets ∨ x = fillPacket := fun x hx =>
      hi x (List.mem_cons_of_mem _ (List.mem_append_left _ hx))
    have hrest : ∀ x ∈ items ++ its, x ∈ packets ∨ x = fillPacket := fun x hx =>
      hi x (List.mem_cons_of_mem _ (List.mem_append_right _ hx))
    have hp : a ++ lead ++ [] ∈ packets := by
      rw [List.append_nil]
      exact mem_of_split (hi _ (by simp)) ha hl
    have hk' : keep.length = n + 1 + zs.length := by rw [hk, List.length_cons]; omega
    rw [drop_flag (by rw [hk, List.length_cons]; omega)] at hhead ⊢
    rw [survivors_last hl h.le hlen fun x hx => hnonempty (hw x hx), Add.unfilled_append,
      Add.unfilled_append]
    have hlt := position_lt ha h.le
    cases hkn : keep.getD n false with
    | false =>
      rw [hkn] at hhead
      have hrec : received keep ((n * Z - a.length) / Z) (n + 1) = false := by
        rw [Bool.eq_false_iff]
        intro hrec
        rw [received_succ (by omega), hkn] at hrec
        exact Bool.false_ne_true hrec.2
      rw [hrec, if_neg Bool.false_ne_true, if_neg Bool.false_ne_true]
      exact ih (h.lose hkn hle) hb hrest hk' (fun z hz => hfull z (by simp [hz]))
        (fun z hz => htidy z (by simp [hz])) hhead
    | true =>
      rw [hkn] at hhead
      obtain ⟨s₁, g', joined, hz, hmode, htrack, hjoin, hall⟩ := h.continued hpk
        (z := ⟨lead, w, trail⟩) hp ha hl (fun hc => absurd rfl hc) h8 hZ hlen (htidy _ (by simp))
        (opens_of_carries (hc.append hb) hrest) (fun hg => hhead.1 hg hl)
      rw [if_pos rfl] at htrack
      obtain ⟨s₂, out, hrun, hsub, hout⟩ := ih htrack hb hrest hk'
        (fun z hz => hfull z (by simp [hz]))
        (fun z hz => by rw [hmode]; exact htidy z (by simp [hz])) hhead.2
      refine ⟨s₂, _, runAll_cons hz hrun, ?_, ?_⟩
      · rw [if_pos rfl, List.append_assoc]
        refine List.Sublist.append ?_ (List.Sublist.append (List.Sublist.refl _) hsub)
        by_cases hrec : received keep ((n * Z - a.length) / Z) (n + 1) = true
        · rw [if_pos hrec, hall rfl hrec]
          exact List.filter_sublist
        · rw [if_neg hrec]
          exact List.nil_sublist _
      · intro x hx
        rcases List.mem_append.1 hx with hx | hx
        · rcases List.mem_append.1 hx with hx | hx
          · exact Or.inr (hjoin x hx)
          · exact Or.inl (mem_unfilled hw x hx)
        · exact hout x hx
  | @first w trail zs items b hc ih =>
    -- nothing is open, so what is stashed has no part in the zone
    intro s n t g gap h hb hi hk hfull htidy hhead
    rw [List.append_assoc] at hi
    have hlen : (⟨[], w, trail⟩ : Zone Octet).flat.length = Z := hfull _ (by simp)
    have hle : trail.length ≤ (n + 1) * Z := trail_le hlen
    have hw : ∀ x ∈ w, x ∈ packets ∨ x = fillPacket := fun x hx =>
      hi x (List.mem_append_left _ hx)
    have hrest : ∀ x ∈ items ++ its, x ∈ packets ∨ x = fillPacket := fun x hx =>
      hi x (List.mem_append_right _ hx)
    have hk' : keep.length = n + 1 + zs.length := by rw [hk, List.length_cons]; omega
    rw [drop_flag (by rw [hk, List.length_cons]; omega)] at hhead ⊢
    rw [List.length_nil, Nat.sub_zero, survivors_first hlen fun x hx => hnonempty (hw x hx),
      Add.unfilled_append]
    cases hkn : keep.getD n false with
    | false =>
      rw [hkn] at hhead
      rw [if_neg Bool.false_ne_true]
      exact ih (h.lose hkn hle) hb hrest hk' (fun z hz => hfull z (by simp [hz]))
        (fun z hz => htidy z (by simp [hz])) hhead
    | true =>
      rw [hkn] at hhead
      obtain ⟨s₁, hz, hmode, htrack⟩ := h.first hpk h8 hZ hlen (htidy _ (by simp)) rfl
        (opens_of_carries (hc.append hb) hrest)
      obtain ⟨s₂, out, hrun, hsub, hout⟩ := ih htrack hb hrest hk'
        (fun z hz => hfull z (by simp [hz]))
        (fun z hz => by rw [hmode]; exact htidy z (by simp [hz])) hhead.2
      refine ⟨s₂, _, runAll_cons hz hrun, ?_, ?_⟩
      · rw [if_pos rfl]
        exact List.Sublist.append (List.Sublist.refl _) hsub
      · intro x hx
        rcases List.mem_append.1 hx with hx | hx
        · exact Or.inl (mem_unfilled hw x hx)
        · exact hout x hx

end Remove

variable {Z : ℕ}

/-- **The receiver recovers from loss.** The M_PDUs sent are full zones that carry the
packets in order with fill between. Whichever of them are lost, as long as no gap cuts a
header short, the receiver throws nothing, delivers the packets that lie in the M_PDUs
received, in order, and delivers nothing else but what is put together over a gap and has
the length its header tells. -/
theorem recovers_from_loss (multi allow : Bool) (h8 : 8 ≤ Z) (hZ : Z ≤ 2046)
    (inputs : List (Bytes × Bool)) (hwf : ∀ a ∈ inputs, Encap.WellFormed a.1) :
    ∃ s zs z layout, runAll Add.processData (Add.start multi Z) inputs = .ok (s, zs.map encode) ∧
      (∀ w ∈ zs, w.flat.length = Z) ∧ Carries [] (zs ++ [z]) layout [] ∧
      Add.unfilled layout = inputs.map Prod.fst ∧
      ∀ keep : List Bool, keep.length = zs.length → HeadersComplete [] false keep zs →
        ∃ r out, runAll Remove.assembleEncap
            { multiPacketZone := multi, allowPacketsAfterFill := allow } (kept keep (zs.map encode)) =
              .ok (r, out) ∧
          (Add.unfilled (survivors Z keep 0 layout)).Sublist out ∧
          ∀ x ∈ out, x ∈ inputs.map Prod.fst ∨ Spliced (inputs.map Prod.fst) x := by
  obtain ⟨s, zs, z, items, hrun, -, hfull, htidy, hcar, hun, -, -⟩ :=
    Add.run_spec hZ inputs (Add.start_waiting multi (by omega)) hwf
  have hstart : Carries [] [({} : Zone Octet)] [] [] := .first (.nil [])
  have hc := hcar [] [] hstart
  rw [List.nil_append] at hc
  refine ⟨s, zs, z, items, hrun, hfull, hc, hun, fun keep hk hhead => ?_⟩
  have hpk : ∀ p ∈ inputs.map Prod.fst, Encap.WellFormed p := by
    intro p hp
    obtain ⟨a, ha, rfl⟩ := List.mem_map.1 hp
    exact hwf a ha
  have hi : ∀ x ∈ items, x ∈ inputs.map Prod.fst ∨ x = fillPacket := by
    intro x hx
    by_cases hf : x = fillPacket
    · exact Or.inr hf
    · rw [← hun, Add.unfilled, List.mem_filter]
      exact Or.inl ⟨hx, by simpa using hf⟩
  obtain ⟨b, i₁, i₂, h₁, h₂, rfl⟩ := hc.split
  have hne : ∀ x ∈ i₂, x ≠ [] := by
    intro x hx hnil
    rcases hi x (List.mem_append_right _ hx) with h | h
    · obtain ⟨f, rest, hp, -⟩ := hpk x h
      rw [hnil] at hp
      exact absurd hp (by simp)
    · rw [hnil] at h
      exact absurd h (by simp [fillPacket])
  have htrack : Remove.Tracking (inputs.map Prod.fst) Z keep 0 [] [] false
      { multiPacketZone := multi, allowPacketsAfterFill := allow } [] :=
    ⟨rfl, fun h => absurd rfl h, fun f hf => absurd hf (by simp), fun h => absurd rfl h, by simp⟩
  obtain ⟨r, out, hrecv, hsub, hout⟩ := htrack.run hpk h8 hZ h₁ h₂ hi (by omega) hfull htidy hhead
  rw [Nat.zero_mul, Nat.zero_sub] at hsub
  refine ⟨r, out, hrecv, ?_, hout⟩
  rwa [survivors_unsent (by omega) h₁ h₂ hfull hk hne]

theorem recovers_from_loss_one : ∃ (s : Add) (zs : List (Zone Octet)) (layout : List Bytes)
    (r : Remove) (out : List Bytes),
    runAll Add.processData (Add.start true 8)
      [([0xE6, 0, 0, 11, 1, 2, 3, 4, 5, 6, 7], false), ([0xE6, 0, 0, 4], true)] =
        .ok (s, zs.map encode) ∧
    Add.unfilled layout = [[0xE6, 0, 0, 11, 1, 2, 3, 4, 5, 6, 7], [0xE6, 0, 0, 4]] ∧
    runAll Remove.assembleEncap {} (kept [false, true] (zs.map encode)) = .ok (r, out) ∧
    (Add.unfilled (survivors 8 [false, true] 0 layout)).Sublist out := by
  obtain ⟨s, zs, z, layout, hadd, -, -, hun, hall⟩ := recovers_from_loss true true (Z := 8)
    (by decide) (by decide)
    [([0xE6, 0, 0, 11, 1, 2, 3, 4, 5, 6, 7], false), ([0xE6, 0, 0, 4], true)] (by
      intro a ha
      rcases List.mem_cons.1 ha with rfl | ha
      · exact ⟨0xE6, _, rfl, by decide, by decide, by decide⟩
      · obtain rfl := List.mem_singleton.1 ha
        exact ⟨0xE6, _, rfl, by decide, by decide, by decide⟩)
  have hrun : runAll Add.processData (Add.start true 8)
      [([0xE6, 0, 0, 11, 1, 2, 3, 4, 5, 6, 7], false), ([0xE6, 0, 0, 4], true)] =
        .ok (Add.start true 8,
          [[0, 0, 0xE6, 0, 0, 11, 1, 2, 3, 4], [0, 3, 5, 6, 7, 0xE6, 0, 0, 4, 0xE0]]) := by decide
  have hlen : zs.length = 2 := by
    have := congrArg List.length (Prod.mk.inj (Except.ok.inj (hadd.symm.trans hrun))).2
    simpa using this
  have hhead : HeadersComplete [] false [false, true] zs := by
    match zs, hlen with
    | [z₀, z₁], _ => exact ⟨fun _ _ _ first hf => absurd hf (by simp), trivial⟩
  obtain ⟨r, out, hrecv, hsub, -⟩ := hall [false, true] (by rw [hlen]; rfl) hhead
  exact ⟨s, zs, layout, r, out, hadd, hun, hrecv, hsub⟩

set_option maxRecDepth 4000 in
/-- **A packet that was not sent is delivered**: two M_PDUs are lost, and the end of the
second packet fits the start of the first. -/
theorem splice_delivered : ∃ s sent r x,
    runAll Add.processData (Add.start true 8)
      [([0xE6, 0, 0, 12, 1, 2, 3, 4, 5, 6, 7, 8], false),
       ([0xE6, 0, 0, 16, 11, 12, 13, 14, 15, 16, 17, 18, 19, 20, 21, 22], true)] = .ok (s, sent) ∧
    runAll Remove.assembleEncap {} (kept [true, false, false, true] sent) = .ok (r, [x]) ∧
    x ∉ [[0xE6, 0, 0, 12, 1, 2, 3, 4, 5, 6, 7, 8],
      [0xE6, 0, 0, 16, 11, 12, 13, 14, 15, 16, 17, 18, 19, 20, 21, 22]] := by
  refine ⟨_, _, _, _, rfl, rfl, by decide⟩

end ChannelEmulator.Multiplexing
