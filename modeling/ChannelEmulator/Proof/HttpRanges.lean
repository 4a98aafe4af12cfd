import ChannelEmulator.Spec.HttpRanges
import Mathlib.Data.List.TakeWhile

/-!
# Which byte ranges are served

* `readLoop_eq`: the reads of a range, by the octets of the file.
* `allRanges_text`, `oneRange_text`: what the expressions capture of a header that holds ranges.
* `positions_eq`: positions that read the same octets of all files are the same.
* `served_exactly_iff`: **when a list of ranges is answered with the octets that it denotes**, or with the
  status 416.
-/

namespace ChannelEmulator.Http

/-! ## Reads -/

theorem readLoop_eq (file : Bytes) {reads pos remaining : ℕ} (h : remaining ≤ reads) :
    readLoop file reads pos remaining = (file.drop pos).take remaining := by
  induction reads generalizing pos remaining with
  | zero =>
    rw [Nat.le_zero.1 h]
    rfl
  | succ reads ih =>
    unfold readLoop
    by_cases h0 : remaining = 0
    · rw [if_pos h0, h0, List.take_zero]
    · rw [if_neg h0]
      simp only []
      split
      · -- nothing is left of the file
        rename_i hnil
        rcases List.take_eq_nil_iff.1 hnil with hmin | hdrop
        · omega
        · rw [hdrop, List.take_nil]
      · rename_i hne
        have hpos := List.length_pos_iff.2 hne
        have hlen : ((file.drop pos).take (min remaining 8192)).length = min (min remaining 8192) (file.drop pos).length :=
          List.length_take
        have hfront : (file.drop pos).take (min remaining 8192) =
            (file.drop pos).take ((file.drop pos).take (min remaining 8192)).length := by
          rw [hlen, List.take_eq_take_min]
        generalize ((file.drop pos).take (min remaining 8192)).length = m at hpos hlen hfront ⊢
        rw [ih (by omega), hfront, ← List.drop_drop, ← List.take_add, show m + (remaining - m) = remaining by omega]

/-- The octets of a file at positions. -/
def octetsAt (file : Bytes) (xs : List ℕ) : Bytes := xs.map fun i => file.getD i 0

theorem slice_eq (file : Bytes) (b len : ℕ) :
    (file.drop b).take len = octetsAt file (List.range' b (min len (file.length - b))) := by
  refine List.ext_getElem ?_ fun i h₁ h₂ => ?_
  · simp [octetsAt]
  · have hi : i < min len (file.length - b) := by simpa using h₁
    simp only [octetsAt, List.getElem_take, List.getElem_drop, List.getElem_map, List.getElem_range', Nat.one_mul]
    rw [List.getD_eq_getElem?_getD, List.getElem?_eq_getElem (by omega), Option.getD_some]

/-- **Positions that read the same octets of all files are the same.** -/
theorem positions_eq {n : ℕ} {xs ys : List ℕ} (hx : ∀ i ∈ xs, i < n) (hy : ∀ i ∈ ys, i < n)
    (h : ∀ file : Bytes, file.length = n → octetsAt file xs = octetsAt file ys) : xs = ys := by
  have hlen : xs.length = ys.length := by
    have := congrArg List.length (h (newUnit n) (newUnit_length n))
    simpa [octetsAt] using this
  refine List.ext_getElem hlen fun i h₁ h₂ => ?_
  -- a file of zeros but for the octet at the one position
  have hi := hx _ (List.getElem_mem h₁)
  have hread := h ((newUnit n).set xs[i] 1) (by rw [List.length_set, newUnit_length])
  have hat := congrArg (fun u : Bytes => u[i]?) hread
  simp only [octetsAt, List.getElem?_map, List.getElem?_eq_getElem h₁, List.getElem?_eq_getElem h₂, Option.map_some,
    List.getD_eq_getElem?_getD, List.getElem?_set_self (show xs[i] < (newUnit n).length by rwa [newUnit_length]),
    Option.getD_some] at hat
  by_contra hne
  have hj : ys[i] < (newUnit n).length := by
    rw [newUnit_length]
    exact hy _ (List.getElem_mem h₂)
  have hzero : (newUnit n)[ys[i]] = 0 := by simp [newUnit]
  rw [List.getElem?_set_ne hne, List.getElem?_eq_getElem hj, Option.getD_some, hzero] at hat
  exact absurd (Option.some.inj hat) (by decide)

/-! ## What the expressions capture -/

theorem takeWhile_append_head {p : Octet → Bool} {u v : Bytes} (hu : ∀ b ∈ u, p b) (hv : ∀ b ∈ v.head?, p b = false) :
    (u ++ v).takeWhile p = u := by
  rw [List.takeWhile_append_of_pos hu]
  cases v with
  | nil => rw [List.takeWhile_nil, List.append_nil]
  | cons b v =>
    have hb : ¬ p b := by simpa using hv b rfl
    rw [List.takeWhile_cons_of_neg hb, List.append_nil]

theorem dropWhile_append_head {p : Octet → Bool} {u v : Bytes} (hu : ∀ b ∈ u, p b) (hv : ∀ b ∈ v.head?, p b = false) :
    (u ++ v).dropWhile p = v := by
  rw [List.dropWhile_append_of_pos hu]
  cases v with
  | nil => rfl
  | cons b v =>
    have hb : ¬ p b := by simpa using hv b rfl
    exact List.dropWhile_cons_of_neg hb

theorem isRangeOctet_of_isSpace {b : Octet} (h : isSpace b) : isRangeOctet b = false := by
  unfold isSpace at h
  unfold isRangeOctet isDigit
  grind

theorem isSpace_of_isRangeOctet {b : Octet} (h : isRangeOctet b) : isSpace b = false := by
  by_contra hs
  rw [isRangeOctet_of_isSpace (by simpa using hs)] at h
  cases h

theorem isRangeOctet_of_isDigit {b : Octet} (h : isDigit b) : isRangeOctet b := by
  rw [isRangeOctet, h]
  rfl

theorem isDigit_of_isSpace {b : Octet} (h : isSpace b) : isDigit b = false := by
  by_contra hd
  have := isRangeOctet_of_isDigit (b := b) (by simpa using hd)
  rw [isRangeOctet_of_isSpace h] at this
  cases this

/-- A list has no space in front that starts with an octet of a range. -/
theorem head_not_space {u : Bytes} (h : ∀ b ∈ u, isRangeOctet b) : ∀ b ∈ u.head?, isSpace b = false :=
  fun b hb => isSpace_of_isRangeOctet (h b (List.mem_of_mem_head? hb))

theorem oneRange_captures {first last s : Bytes} (hfirst : ∀ b ∈ first, isDigit b) (hlast : ∀ b ∈ last, isDigit b)
    (hs : ∀ b ∈ s, isSpace b) : oneRange (first ++ 45 :: last ++ s) = some (first, last) := by
  have hhead : ∀ b ∈ (first ++ 45 :: (last ++ s)).head?, isSpace b = false := by
    cases first with
    | nil =>
      intro b hb
      rw [← Option.some.inj hb]
      decide
    | cons d first => exact head_not_space (u := [d]) (by simpa using isRangeOctet_of_isDigit (hfirst d (by simp)))
  have hdash : ∀ b ∈ (45 :: (last ++ s) : Bytes).head?, isDigit b = false := fun b hb => by
    rw [← Option.some.inj hb]
    decide
  have hdrop : ∀ v : Bytes, (∀ b ∈ v.head?, isSpace b = false) → v.dropWhile isSpace = v :=
    fun v hv => dropWhile_append_head (u := []) (by simp) hv
  -- spaces behind the dash are skipped, when there is no number
  obtain ⟨s', hs', hskip⟩ : ∃ s' : Bytes, (∀ b ∈ s', isSpace b) ∧ (last ++ s).dropWhile isSpace = last ++ s' := by
    cases last with
    | nil => exact ⟨[], by simp, by rw [List.nil_append, List.dropWhile_eq_nil_iff.2 hs, List.nil_append]⟩
    | cons d last =>
      exact ⟨s, hs, hdrop _ (head_not_space (u := [d]) (by simpa using isRangeOctet_of_isDigit (hlast d (by simp))))⟩
  have hend : ∀ b ∈ s'.head?, isDigit b = false := fun b hb => isDigit_of_isSpace (hs' b (List.mem_of_mem_head? hb))
  unfold oneRange
  simp only [List.append_assoc, List.cons_append]
  rw [hdrop _ hhead, takeWhile_append_head hfirst hdash, dropWhile_append_head hfirst hdash,
    hdrop (45 :: (last ++ s)) fun b hb => by rw [← Option.some.inj hb]; decide]
  simp only []
  rw [hskip, takeWhile_append_head hlast hend, dropWhile_append_head hlast hend, if_pos (List.all_eq_true.2 hs')]

namespace ByteRange

/-- The numbers of a range, empty where there is none. -/
def numbers : ByteRange → Bytes × Bytes
  | fromTo first last => (first, last)
  | fromOn first => (first, [])
  | lastOctets count => ([], count)

theorem text_eq (r : ByteRange) : r.text = r.numbers.1 ++ 45 :: r.numbers.2 := by
  cases r <;> rfl

theorem WellFormed.numbers_digits {r : ByteRange} (h : r.WellFormed) :
    (∀ b ∈ r.numbers.1, isDigit b) ∧ ∀ b ∈ r.numbers.2, isDigit b := by
  cases r with
  | fromTo first last => exact ⟨h.1.2, h.2.2⟩
  | fromOn first => exact ⟨h.2, by simp [numbers]⟩
  | lastOctets count => exact ⟨by simp [numbers], h.2⟩

theorem WellFormed.oneRange_text {r : ByteRange} (h : r.WellFormed) {s : Bytes} (hs : ∀ b ∈ s, isSpace b) :
    oneRange (r.text ++ s) = some r.numbers := by
  rw [text_eq]
  exact oneRange_captures h.numbers_digits.1 h.numbers_digits.2 hs

/-- A range is written with digits and a dash. -/
theorem WellFormed.mem_text {r : ByteRange} (h : r.WellFormed) {b : Octet} (hb : b ∈ r.text) :
    isDigit b ∨ b = 45 := by
  rw [text_eq, List.mem_append, List.mem_cons] at hb
  rcases hb with hb | rfl | hb
  · exact .inl (h.numbers_digits.1 b hb)
  · exact .inr rfl
  · exact .inl (h.numbers_digits.2 b hb)

end ByteRange

theorem ne_comma_of_isDigit {b : Octet} (h : isDigit b) : b ≠ 44 := by
  rintro rfl
  cases h

theorem ne_comma_of_isSpace {b : Octet} (h : isSpace b) : b ≠ 44 := by
  rintro rfl
  cases h

/-- **The tokens between the commas**, with the space behind the last. -/
theorem tokens_texts {rs : List ByteRange} (hne : rs ≠ []) (h : ∀ r ∈ rs, r.WellFormed) {s : Bytes}
    (hs : ∀ b ∈ s, isSpace b) :
    ∃ tokens : List Bytes, ([44].intercalate (rs.map ByteRange.text) ++ s).splitOn 44 = tokens ∧
      List.Forall₂ (fun token r => oneRange token = some r.numbers) tokens rs := by
  suffices htok : ∃ tokens : List Bytes, tokens ≠ [] ∧ (∀ u ∈ tokens, (44 : Octet) ∉ u) ∧
      [44].intercalate (rs.map ByteRange.text) ++ s = [44].intercalate tokens ∧
      List.Forall₂ (fun token r => oneRange token = some r.numbers) tokens rs by
    obtain ⟨tokens, hnil, hcomma, heq, hall⟩ := htok
    exact ⟨tokens, by rw [heq, List.splitOn_intercalate _ hcomma hnil], hall⟩
  have hcomma : ∀ r : ByteRange, r.WellFormed → (44 : Octet) ∉ r.text := fun r hr hmem => by
    rcases hr.mem_text hmem with hd | hd
    · exact ne_comma_of_isDigit hd rfl
    · cases hd
  induction rs with
  | nil => exact absurd rfl hne
  | cons r rs ih =>
    have hr := h r List.mem_cons_self
    cases rs with
    | nil =>
      refine ⟨[r.text ++ s], List.cons_ne_nil _ _, ?_, ?_, .cons (hr.oneRange_text hs) .nil⟩
      · intro u hu hmem
        rw [List.mem_singleton.1 hu, List.mem_append] at hmem
        exact hmem.elim (hcomma r hr) fun hmem => ne_comma_of_isSpace (hs _ hmem) rfl
      · simp
    | cons r' rs =>
      obtain ⟨tokens, hnil, hall, heq, hone⟩ := ih (List.cons_ne_nil _ _) fun x hx => h x (List.mem_cons_of_mem _ hx)
      refine ⟨r.text :: tokens, List.cons_ne_nil _ _, ?_, ?_, .cons ?_ hone⟩
      · intro u hu
        rcases List.mem_cons.1 hu with rfl | hu
        · exact hcomma r hr
        · exact hall u hu
      · rw [List.map_cons, List.intercalate_cons_of_ne_nil (by simp), List.intercalate_cons_of_ne_nil hnil,
          List.append_assoc, heq, List.append_assoc]
      · simpa using hr.oneRange_text (s := []) (by simp)

theorem mem_intercalate_texts {rs : List ByteRange} (h : ∀ r ∈ rs, r.WellFormed) {b : Octet}
    (hb : b ∈ [44].intercalate (rs.map ByteRange.text)) : isRangeOctet b := by
  induction rs with
  | nil => cases hb
  | cons r rs ih =>
    have hr : b ∈ r.text → isRangeOctet b := fun hmem => by
      rcases (h r List.mem_cons_self).mem_text hmem with hd | rfl
      · exact isRangeOctet_of_isDigit hd
      · decide
    cases rs with
    | nil => exact hr (by simpa using hb)
    | cons r' rs =>
      rw [List.map_cons, List.intercalate_cons_of_ne_nil (by simp), List.mem_append, List.mem_append,
        List.mem_singleton] at hb
      rcases hb with (hb | rfl) | hb
      · exact hr hb
      · decide
      · exact ih (fun x hx => h x (List.mem_cons_of_mem _ hx)) hb

/-- **A header that holds ranges is captured from the first range on.** -/
theorem allRanges_text {range : Bytes} {rs : List ByteRange} (h : Holds range rs) :
    ∃ s : Bytes, (∀ b ∈ s, isSpace b) ∧
      allRanges (cStr range) = some ([44].intercalate (rs.map ByteRange.text) ++ s) := by
  obtain ⟨s₁, s₂, s₃, hspace, rfl⟩ := h.text_eq
  have hR : ∀ b ∈ [44].intercalate (rs.map ByteRange.text), isRangeOctet b :=
    fun b hb => mem_intercalate_texts h.wellFormed hb
  have hnil : [44].intercalate (rs.map ByteRange.text) ≠ [] := by
    have hne := h.nonempty
    cases rs with
    | nil => exact absurd rfl hne
    | cons r rs =>
      have htext : r.text ≠ [] := by simp [ByteRange.text_eq]
      cases rs with
      | nil => simpa using htext
      | cons r' rs => simp [List.map_cons, List.intercalate_cons_cons]
  have h₁ : ∀ b ∈ s₁, isSpace b := fun b hb => hspace b (by simp [hb])
  have h₂ : ∀ b ∈ s₂, isSpace b := fun b hb => hspace b (by simp [hb])
  have h₃ : ∀ b ∈ s₃, isSpace b := fun b hb => hspace b (by simp [hb])
  generalize [44].intercalate (rs.map ByteRange.text) = R at hR hnil
  have hzero : ∀ b, isSpace b ∨ isRangeOctet b → b ≠ 0 := by
    rintro b hb rfl
    exact hb.elim (fun hb => absurd hb (by decide)) fun hb => absurd hb (by decide)
  have hcstr : cStr (ascii "bytes" ++ s₁ ++ [61] ++ s₂ ++ R ++ s₃) = ascii "bytes" ++ s₁ ++ [61] ++ s₂ ++ R ++ s₃ := by
    refine List.takeWhile_eq_self_iff.2 fun b hb => ?_
    simp only [List.mem_append, List.mem_singleton] at hb
    rcases hb with ((((hb | hb) | rfl) | hb) | hb) | hb
    · revert b
      decide +kernel
    · exact decide_eq_true (hzero b (.inl (h₁ b hb)))
    · decide
    · exact decide_eq_true (hzero b (.inl (h₂ b hb)))
    · exact decide_eq_true (hzero b (.inr (hR b hb)))
    · exact decide_eq_true (hzero b (.inl (h₃ b hb)))
  have hhead : ∀ b ∈ (R ++ s₃).head?, isSpace b = false := by
    cases R with
    | nil => exact absurd rfl hnil
    | cons b R => exact head_not_space (u := [b]) (by simpa using hR b (by simp))
  have hend : ∀ b ∈ s₃.head?, isRangeOctet b = false :=
    fun b hb => isRangeOctet_of_isSpace (h₃ b (List.mem_of_mem_head? hb))
  refine ⟨s₃, h₃, ?_⟩
  rw [hcstr]
  unfold allRanges
  simp only [List.append_assoc]
  rw [List.take_left' (by rfl), List.drop_left' (by rfl), if_pos rfl,
    dropWhile_append_head h₁ fun b hb => by rw [← Option.some.inj hb]; decide]
  simp only [List.singleton_append]
  rw [dropWhile_append_head h₂ hhead, takeWhile_append_head hR hend, dropWhile_append_head hR hend,
    if_pos ⟨hnil, List.all_eq_true.2 h₃⟩]

/-! ## What is served -/

namespace ByteRange

/-- `fileBegin` and `fileEnd` of a range, with the `fileEnd` that was left by the ranges before. -/
def window (fileLength fileEnd : ℤ) : ByteRange → ℤ × ℤ
  | fromTo first last => (atoi first, atoi last)
  | fromOn first => (atoi first, fileEnd)
  | lastOctets count => (fileLength - 1 - atoi count, fileEnd)

theorem WellFormed.assignRange_numbers {r : ByteRange} (h : r.WellFormed) (fileLength fileEnd : ℤ) :
    assignRange fileLength fileEnd r.numbers.1 r.numbers.2 = some (window fileLength fileEnd r) := by
  cases r with
  | fromTo first last =>
    obtain ⟨a, first, rfl⟩ := List.exists_cons_of_ne_nil h.1.1
    obtain ⟨b, last, rfl⟩ := List.exists_cons_of_ne_nil h.2.1
    rfl
  | fromOn first =>
    obtain ⟨a, first, rfl⟩ := List.exists_cons_of_ne_nil h.1
    rfl
  | lastOctets count =>
    obtain ⟨a, count, rfl⟩ := List.exists_cons_of_ne_nil h.1
    rfl

end ByteRange

/-- One of the ranges is answered with the status 416. -/
def Refused (fileLength : ℤ) : ℤ → List ByteRange → Prop
  | _, [] => False
  | fileEnd, r :: rs =>
    Invalid fileLength (r.window fileLength fileEnd).1 (r.window fileLength fileEnd).2 ∨
      Refused fileLength (r.window fileLength fileEnd).2 rs

/-- The positions of a window of a file of a length. -/
def windowPositions (n : ℕ) (w : ℤ × ℤ) : List ℕ :=
  List.range' w.1.toNat (min (w.2 - w.1 + 1).toNat (n - w.1.toNat))

/-- The positions that are read for ranges. -/
def positions (fileLength : ℤ) (n : ℕ) : ℤ → List ByteRange → List ℕ
  | _, [] => []
  | fileEnd, r :: rs =>
    windowPositions n (r.window fileLength fileEnd) ++ positions fileLength n (r.window fileLength fileEnd).2 rs

theorem serveRanges_refused {fileLength : ℤ} {file : Bytes} {tokens : List Bytes} {rs : List ByteRange}
    (htok : List.Forall₂ (fun token r => oneRange token = some r.numbers) tokens rs)
    (hwf : ∀ r ∈ rs, r.WellFormed) {fileEnd : ℤ} (h : Refused fileLength fileEnd rs) (content : Bytes) :
    serveRanges fileLength file tokens fileEnd content = notSatisfiable := by
  induction htok generalizing fileEnd content with
  | nil => exact h.elim
  | @cons token r tokens rs hone _ ih =>
    have hwf' : ∀ x ∈ rs, x.WellFormed := fun x hx => hwf x (List.mem_cons_of_mem _ hx)
    unfold serveRanges
    rw [hone]
    simp only [(hwf r List.mem_cons_self).assignRange_numbers]
    rcases h with h | h
    · rw [if_pos h]
    · split
      · rfl
      · exact ih hwf' h _

theorem serveRanges_positions {fileLength : ℤ} {file : Bytes} {tokens : List Bytes} {rs : List ByteRange}
    (htok : List.Forall₂ (fun token r => oneRange token = some r.numbers) tokens rs)
    (hwf : ∀ r ∈ rs, r.WellFormed) {fileEnd : ℤ} (h : ¬ Refused fileLength fileEnd rs) (content : Bytes) :
    serveRanges fileLength file tokens fileEnd content =
      ⟨200, content ++ octetsAt file (positions fileLength file.length fileEnd rs)⟩ := by
  induction htok generalizing fileEnd content with
  | nil => simp [serveRanges, positions, octetsAt]
  | @cons token r tokens rs hone _ ih =>
    obtain ⟨hvalid, hrest⟩ := not_or.1 h
    unfold serveRanges
    rw [hone]
    simp only [(hwf r List.mem_cons_self).assignRange_numbers]
    rw [if_neg hvalid, ih (fun x hx => hwf x (List.mem_cons_of_mem _ hx)) hrest, readLoop_eq _ (Nat.le_refl _), slice_eq,
      List.append_assoc, octetsAt, octetsAt, ← List.map_append]
    rfl

/-! ## What is asked for -/

namespace ByteRange

/-- The positions that a range denotes. -/
def denoted (n : ℕ) : ByteRange → List ℕ
  | fromTo first last => List.range' (decimal first) (decimal last + 1 - decimal first)
  | fromOn first => List.range' (decimal first) (n - decimal first)
  | lastOctets count => List.range' (n - decimal count) (decimal count)

theorem Satisfiable.denoted_lt {n : ℕ} {r : ByteRange} (h : r.Satisfiable n) : ∀ i ∈ r.denoted n, i < n := by
  intro i hi
  cases r with
  | fromTo first last =>
    have := List.mem_range'_1.1 hi
    have hsat : decimal first ≤ decimal last ∧ decimal last < n := h
    omega
  | fromOn first =>
    have := List.mem_range'_1.1 hi
    omega
  | lastOctets count =>
    have := List.mem_range'_1.1 hi
    have hsat : 0 < decimal count ∧ decimal count ≤ n := h
    omega

theorem Satisfiable.denoted_ne_nil {n : ℕ} {r : ByteRange} (h : r.Satisfiable n) : r.denoted n ≠ [] := by
  intro hnil
  cases r with
  | fromTo first last =>
    have hlen := List.range'_eq_nil_iff.1 hnil
    have hsat : decimal first ≤ decimal last ∧ decimal last < n := h
    omega
  | fromOn first =>
    have hlen := List.range'_eq_nil_iff.1 hnil
    have hsat : decimal first < n := h
    omega
  | lastOctets count =>
    have hlen := List.range'_eq_nil_iff.1 hnil
    have hsat : 0 < decimal count ∧ decimal count ≤ n := h
    omega

theorem Satisfiable.octets_eq {file : Bytes} {r : ByteRange} (h : r.Satisfiable file.length) :
    r.octets file = octetsAt file (r.denoted file.length) := by
  cases r with
  | fromTo first last =>
    have hsat : decimal first ≤ decimal last ∧ decimal last < file.length := h
    rw [octets, denoted, List.drop_take, slice_eq, Nat.min_eq_left (by omega)]
  | fromOn first =>
    rw [octets, denoted, ← List.take_of_length_le (l := file.drop _) (i := file.length - decimal first)
      (by rw [List.length_drop]), slice_eq, Nat.min_self]
  | lastOctets count =>
    have hsat : 0 < decimal count ∧ decimal count ≤ file.length := h
    rw [octets, denoted, ← List.take_of_length_le (l := file.drop _) (i := decimal count)
      (by rw [List.length_drop]; omega), slice_eq, Nat.min_eq_left (by omega)]

/-- The last octet that a range leaves for those behind it. -/
def fileEnd (fileEnd : ℤ) : ByteRange → ℤ
  | fromTo _ last => decimal last
  | fromOn _ => fileEnd
  | lastOctets _ => fileEnd

/-- A range that is served as it is asked for: with an end before the length, or without one where the end that
was left is not before the last octet; the last octets only where the length is one more than the file has. -/
def Fits (fileLength : ℤ) (n : ℕ) (fileEnd : ℤ) : ByteRange → Prop
  | fromTo _ last => (decimal last : ℤ) < fileLength
  | fromOn _ => (n : ℤ) ≤ fileEnd + 1
  | lastOctets _ => fileLength = n + 1 ∧ (n : ℤ) ≤ fileEnd + 1

instance (fileLength : ℤ) (n : ℕ) (fileEnd : ℤ) : (r : ByteRange) → Decidable (r.Fits fileLength n fileEnd)
  | fromTo _ last => inferInstanceAs (Decidable ((decimal last : ℤ) < fileLength))
  | fromOn _ => inferInstanceAs (Decidable ((n : ℤ) ≤ fileEnd + 1))
  | lastOctets _ => inferInstanceAs (Decidable (fileLength = n + 1 ∧ (n : ℤ) ≤ fileEnd + 1))

end ByteRange

/-- Each of the ranges fits. -/
def Exact (fileLength : ℤ) (n : ℕ) : ℤ → List ByteRange → Prop
  | _, [] => True
  | fileEnd, r :: rs => r.Fits fileLength n fileEnd ∧ Exact fileLength n (r.fileEnd fileEnd) rs

theorem octets_flatten {file : Bytes} {rs : List ByteRange} (h : ∀ r ∈ rs, r.Satisfiable file.length) :
    (rs.map (·.octets file)).flatten = octetsAt file (rs.flatMap (·.denoted file.length)) := by
  induction rs with
  | nil => rfl
  | cons r rs ih =>
    rw [List.map_cons, List.flatten_cons, (h r List.mem_cons_self).octets_eq,
      ih fun x hx => h x (List.mem_cons_of_mem _ hx), List.flatMap_cons, octetsAt, octetsAt, octetsAt, List.map_append]

theorem atoi_eq {digits : Bytes} (h : (decimal digits : ℤ) < 2147483648) : atoi digits = decimal digits := by
  unfold atoi toInt
  rw [Nat.min_eq_left (by omega)]
  exact Int.bmod_eq_of_le (by omega) (by omega)

theorem toInt_lt (n : ℤ) : toInt n < 2147483648 := by
  have := Int.bmod_lt (x := n) (m := 4294967296) (by omega)
  unfold toInt
  omega

theorem windowPositions_lt {n : ℕ} {w : ℤ × ℤ} : ∀ i ∈ windowPositions n w, i < n := by
  intro i hi
  have := List.mem_range'_1.1 hi
  omega

theorem positions_lt {fileLength : ℤ} {n : ℕ} {fileEnd : ℤ} {rs : List ByteRange} :
    ∀ i ∈ positions fileLength n fileEnd rs, i < n := by
  induction rs generalizing fileEnd with
  | nil => simp [positions]
  | cons r rs ih =>
    intro i hi
    rcases List.mem_append.1 hi with hi | hi
    · exact windowPositions_lt i hi
    · exact ih i hi

/-- No octet at or behind the length is read. -/
theorem positions_lt_length {fileLength : ℤ} {n : ℕ} {fileEnd : ℤ} {rs : List ByteRange}
    (h : ¬ Refused fileLength fileEnd rs) (i : ℕ) (hi : i ∈ positions fileLength n fileEnd rs) :
    (i : ℤ) < fileLength := by
  induction rs generalizing fileEnd with
  | nil => cases hi
  | cons r rs ih =>
    obtain ⟨hvalid, hrest⟩ := not_or.1 h
    rcases List.mem_append.1 hi with hi | hi
    · have := List.mem_range'_1.1 hi
      unfold Invalid at hvalid
      omega
    · exact ih hrest hi

/-! ## When it is served -/

section

variable {fileLength : ℤ} {n : ℕ} (hL : fileLength < 2147483648)

include hL

namespace ByteRange

/-- **A range that fits is read at the positions that it denotes.** -/
theorem Fits.window_positions {fileEnd : ℤ} (hE : fileEnd < fileLength) {r : ByteRange} (hsat : r.Satisfiable n)
    (h : r.Fits fileLength n fileEnd) :
    ¬ Invalid fileLength (r.window fileLength fileEnd).1 (r.window fileLength fileEnd).2 ∧
      windowPositions n (r.window fileLength fileEnd) = r.denoted n ∧
      (r.window fileLength fileEnd).2 = r.fileEnd fileEnd ∧ r.fileEnd fileEnd < fileLength := by
  cases r with
  | fromTo first last =>
    have hsat : decimal first ≤ decimal last ∧ decimal last < n := hsat
    have h : (decimal last : ℤ) < fileLength := h
    have hw : (fromTo first last).window fileLength fileEnd = (↑(decimal first), ↑(decimal last)) := by
      rw [window, atoi_eq (by omega), atoi_eq (by omega)]
    rw [hw]
    refine ⟨by unfold Invalid; omega, ?_, rfl, h⟩
    unfold windowPositions denoted
    rw [Int.toNat_natCast, Nat.min_eq_left (by omega)]
    congr 1
    omega
  | fromOn first =>
    have hsat : decimal first < n := hsat
    have h : (n : ℤ) ≤ fileEnd + 1 := h
    have hw : (fromOn first).window fileLength fileEnd = (↑(decimal first), fileEnd) := by
      rw [window, atoi_eq (by omega)]
    rw [hw]
    refine ⟨by unfold Invalid; omega, ?_, rfl, hE⟩
    unfold windowPositions denoted
    rw [Int.toNat_natCast, Nat.min_eq_right (by omega)]
  | lastOctets count =>
    have hsat : 0 < decimal count ∧ decimal count ≤ n := hsat
    obtain ⟨hlen, h⟩ : fileLength = n + 1 ∧ (n : ℤ) ≤ fileEnd + 1 := h
    have hw : (lastOctets count).window fileLength fileEnd = (↑(n - decimal count), fileEnd) := by
      rw [window, atoi_eq (by omega), hlen, Int.ofNat_sub hsat.2]
      congr 1
      omega
    rw [hw]
    refine ⟨by unfold Invalid; omega, ?_, rfl, hE⟩
    unfold windowPositions denoted
    rw [Int.toNat_natCast]
    congr 1
    omega

end ByteRange

/-- **Ranges that fit are read at the positions that they denote.** -/
theorem Exact.positions_eq {fileEnd : ℤ} (hE : fileEnd < fileLength) {rs : List ByteRange}
    (hsat : ∀ r ∈ rs, r.Satisfiable n) (h : Exact fileLength n fileEnd rs) :
    ¬ Refused fileLength fileEnd rs ∧ positions fileLength n fileEnd rs = rs.flatMap (·.denoted n) := by
  induction rs generalizing fileEnd with
  | nil => exact ⟨id, rfl⟩
  | cons r rs ih =>
    obtain ⟨hvalid, hpos, hend, hlt⟩ := h.1.window_positions hL hE (hsat r List.mem_cons_self)
    obtain ⟨hrest, heq⟩ := ih hlt (fun x hx => hsat x (List.mem_cons_of_mem _ hx)) h.2
    unfold Refused positions
    rw [hend, hpos, heq, List.flatMap_cons]
    exact ⟨not_or.2 ⟨hend ▸ hvalid, hrest⟩, rfl⟩

/-- What the positions weigh: no position counts, but for the last octet where the file has the length. -/
def weight (fileLength : ℤ) (n : ℕ) (xs : List ℕ) : ℤ :=
  if fileLength = n then (n + 1) * xs.count (n - 1) - xs.length else xs.length

omit hL in
theorem weight_append (xs ys : List ℕ) :
    weight fileLength n (xs ++ ys) = weight fileLength n xs + weight fileLength n ys := by
  unfold weight
  rw [List.count_append, List.length_append, Int.natCast_add, Int.natCast_add, Int.mul_add]
  split <;> omega

omit hL in
theorem weight_range' (b m : ℕ) :
    weight fileLength n (List.range' b m) =
      if fileLength = n then (if b ≤ n - 1 ∧ n - 1 < b + m then n + 1 - m else - m : ℤ) else m := by
  unfold weight
  rw [List.count_range_1', List.length_range']
  by_cases hlast : b ≤ n - 1 ∧ n - 1 < b + m
  · rw [if_pos hlast, if_pos hlast, Int.natCast_one, Int.mul_one]
  · rw [if_neg hlast, if_neg hlast, Int.natCast_zero, Int.mul_zero, Int.zero_sub]

/-- **A range that is served weighs no more than what it denotes**, and as much only if it fits. -/
theorem ByteRange.weight_window {fileEnd : ℤ} (hE : fileEnd < fileLength) {r : ByteRange} (hsat : r.Satisfiable n)
    (hvalid : ¬ Invalid fileLength (r.window fileLength fileEnd).1 (r.window fileLength fileEnd).2)
    (hin : ∀ i : ℕ, i ∈ r.denoted n → (i : ℤ) < fileLength) :
    weight fileLength n (windowPositions n (r.window fileLength fileEnd)) ≤ weight fileLength n (r.denoted n) ∧
      (weight fileLength n (windowPositions n (r.window fileLength fileEnd)) = weight fileLength n (r.denoted n) →
        r.Fits fileLength n fileEnd) := by
  cases r with
  | fromTo first last =>
    have hsat' : decimal first ≤ decimal last ∧ decimal last < n := hsat
    have hlast := hin (decimal last) (List.mem_range'_1.2 (by omega))
    have hfits : (fromTo first last).Fits fileLength n fileEnd := hlast
    obtain ⟨-, hpos, -⟩ := hfits.window_positions hL hE hsat
    rw [hpos]
    exact ⟨Int.le_refl _, fun _ => hfits⟩
  | fromOn first =>
    have hsat' : decimal first < n := hsat
    have hlast := hin (n - 1) (List.mem_range'_1.2 (by omega))
    have hw : (fromOn first).window fileLength fileEnd = (↑(decimal first), fileEnd) := by
      rw [window, atoi_eq (by omega)]
    rw [hw] at hvalid ⊢
    unfold Invalid at hvalid
    unfold Fits windowPositions denoted
    rw [weight_range', weight_range', Int.toNat_natCast]
    generalize hm : min (fileEnd - ↑(decimal first) + 1).toNat (n - decimal first) = m
    have hd : decimal first ≤ n - 1 ∧ n - 1 < decimal first + (n - decimal first) := by omega
    rw [if_pos hd]
    split
    · split <;> omega
    · omega
  | lastOctets count =>
    have hsat' : 0 < decimal count ∧ decimal count ≤ n := hsat
    have hlast := hin (n - 1) (List.mem_range'_1.2 (by omega))
    have hw : (lastOctets count).window fileLength fileEnd = (fileLength - 1 - ↑(decimal count), fileEnd) := by
      rw [window, atoi_eq (by omega)]
    rw [hw] at hvalid ⊢
    unfold Invalid at hvalid
    unfold Fits windowPositions denoted
    rw [weight_range', weight_range']
    simp only []
    generalize hb : (fileLength - 1 - ↑(decimal count)).toNat = b
    generalize hm : min (fileEnd - (fileLength - 1 - ↑(decimal count)) + 1).toNat (n - b) = m
    have hd : n - decimal count ≤ n - 1 ∧ n - 1 < n - decimal count + decimal count := by omega
    rw [if_pos hd]
    split
    · split <;> omega
    · omega

theorem weight_positions {fileEnd : ℤ} (hE : fileEnd < fileLength) {rs : List ByteRange}
    (hsat : ∀ r ∈ rs, r.Satisfiable n) (hvalid : ¬ Refused fileLength fileEnd rs)
    (hin : ∀ i : ℕ, i ∈ rs.flatMap (·.denoted n) → (i : ℤ) < fileLength) :
    weight fileLength n (positions fileLength n fileEnd rs) ≤ weight fileLength n (rs.flatMap (·.denoted n)) ∧
      (weight fileLength n (positions fileLength n fileEnd rs) = weight fileLength n (rs.flatMap (·.denoted n)) →
        Exact fileLength n fileEnd rs) := by
  induction rs generalizing fileEnd with
  | nil => exact ⟨Int.le_refl _, fun _ => trivial⟩
  | cons r rs ih =>
    obtain ⟨hv, hrest⟩ := not_or.1 hvalid
    rw [List.flatMap_cons] at hin ⊢
    have hr : r.Satisfiable n := hsat r List.mem_cons_self
    have hin' : ∀ i : ℕ, i ∈ r.denoted n → (i : ℤ) < fileLength := fun i hi => hin i (List.mem_append_left _ hi)
    obtain ⟨hle, hfits⟩ := r.weight_window hL hE hr hv hin'
    have hend : (r.window fileLength fileEnd).2 = r.fileEnd fileEnd ∧ r.fileEnd fileEnd < fileLength := by
      cases r with
      | fromTo first last =>
        have hsat' : decimal first ≤ decimal last ∧ decimal last < n := hr
        have hlast := hin' (decimal last) (List.mem_range'_1.2 (by omega))
        have hfits' : (ByteRange.fromTo first last).Fits fileLength n fileEnd := hlast
        exact (hfits'.window_positions hL hE hr).2.2
      | fromOn first => exact ⟨rfl, hE⟩
      | lastOctets count => exact ⟨rfl, hE⟩
    obtain ⟨hles, hexact⟩ := ih (hend.1 ▸ hend.2) (fun x hx => hsat x (List.mem_cons_of_mem _ hx)) hrest
      fun i hi => hin i (List.mem_append_right _ hi)
    unfold positions
    rw [weight_append, weight_append]
    refine ⟨by omega, fun heq => ⟨hfits (by omega), ?_⟩⟩
    rw [← hend.1]
    exact hexact (by omega)

end

theorem handleRange_refused {stSize : ℤ} {file range : Bytes} {rs : List ByteRange} (h : Holds range rs)
    (hrefused : Refused (toInt stSize) (toInt stSize - 1) rs) : handleRange stSize file range = notSatisfiable := by
  obtain ⟨s, hs, hall⟩ := allRanges_text h
  obtain ⟨tokens, hsplit, htok⟩ := tokens_texts h.nonempty h.wellFormed hs
  unfold handleRange
  rw [hall]
  simp only [hsplit]
  exact serveRanges_refused htok h.wellFormed hrefused []

theorem handleRange_positions {stSize : ℤ} {file range : Bytes} {rs : List ByteRange} (h : Holds range rs)
    (hserved : ¬ Refused (toInt stSize) (toInt stSize - 1) rs) :
    handleRange stSize file range =
      ⟨200, octetsAt file (positions (toInt stSize) file.length (toInt stSize - 1) rs)⟩ := by
  obtain ⟨s, hs, hall⟩ := allRanges_text h
  obtain ⟨tokens, hsplit, htok⟩ := tokens_texts h.nonempty h.wellFormed hs
  unfold handleRange
  rw [hall]
  simp only [hsplit]
  exact serveRanges_positions htok h.wellFormed hserved []

/-- The page of an error does not depend on the file, the octets of a range do. -/
theorem not_page {n : ℕ} {xs : List ℕ} (hne : xs ≠ []) (hlt : ∀ i ∈ xs, i < n) (page : Bytes) :
    ¬ ∀ file : Bytes, file.length = n → page = octetsAt file xs := by
  intro h
  obtain ⟨i, xs, rfl⟩ := List.exists_cons_of_ne_nil hne
  have hi := hlt i List.mem_cons_self
  have hread := (h (List.replicate n 0) List.length_replicate).symm.trans (h (List.replicate n 1) List.length_replicate)
  have hhead : (List.replicate n (0 : Octet)).getD i 0 = (List.replicate n 1).getD i 0 := (List.cons.inj hread).1
  rw [List.getD_eq_getElem?_getD, List.getD_eq_getElem?_getD, List.getElem?_replicate_of_lt hi,
    List.getElem?_replicate_of_lt hi] at hhead
  exact absurd hhead (by decide)

/-- **When a list of ranges is answered with the octets that it denotes**, or with the status 416 where it is not
satisfiable: the length is the one that was found in memory. -/
theorem served_exactly_iff (stSize : ℤ) (n : ℕ) {range : Bytes} {rs : List ByteRange} (h : Holds range rs) :
    (∀ file : Bytes, file.length = n →
      ((∀ r ∈ rs, r.Satisfiable n) → (handleRange stSize file range).content = (rs.map (·.octets file)).flatten) ∧
      ((∃ r ∈ rs, ¬ r.Satisfiable n) → (handleRange stSize file range).statusCode = 416)) ↔
    (∀ r ∈ rs, r.Satisfiable n) ∧ Exact (toInt stSize) n (toInt stSize - 1) rs ∨
      (∃ r ∈ rs, ¬ r.Satisfiable n) ∧ Refused (toInt stSize) (toInt stSize - 1) rs := by
  by_cases hsat : ∀ r ∈ rs, r.Satisfiable n
  · have hnot : ¬ ∃ r ∈ rs, ¬ r.Satisfiable n := fun ⟨r, hr, hn⟩ => hn (hsat r hr)
    have hlt : ∀ i ∈ rs.flatMap (·.denoted n), i < n := fun i hi => by
      obtain ⟨r, hr, hi⟩ := List.mem_flatMap.1 hi
      exact (hsat r hr).denoted_lt i hi
    have hoctets : ∀ file : Bytes, file.length = n →
        (rs.map (·.octets file)).flatten = octetsAt file (rs.flatMap (·.denoted n)) := by
      rintro file rfl
      exact octets_flatten hsat
    constructor
    · intro hall
      have hcontent := fun file hlen => (hall file hlen).1 hsat
      refine .inl ⟨hsat, ?_⟩
      have hserved : ¬ Refused (toInt stSize) (toInt stSize - 1) rs := by
        intro hrefused
        refine not_page ?_ hlt notSatisfiable.content fun file hlen => ?_
        · obtain ⟨r, rs, rfl⟩ := List.exists_cons_of_ne_nil h.nonempty
          exact List.append_ne_nil_of_left_ne_nil (hsat r List.mem_cons_self).denoted_ne_nil _
        · rw [← hoctets file hlen, ← hcontent file hlen, handleRange_refused h hrefused]
      have hpos : positions (toInt stSize) n (toInt stSize - 1) rs = rs.flatMap (·.denoted n) := by
        refine positions_eq positions_lt hlt fun file hlen => ?_
        rw [← hoctets file hlen, ← hcontent file hlen, handleRange_positions h hserved, hlen]
      refine (weight_positions (toInt_lt _) (by omega) hsat hserved ?_).2 (by rw [hpos])
      rw [← hpos]
      exact positions_lt_length hserved
    · rintro (⟨-, hexact⟩ | ⟨hn, -⟩) file hlen
      · refine ⟨fun _ => ?_, fun hn => absurd hn hnot⟩
        obtain ⟨hserved, hpos⟩ := hexact.positions_eq (toInt_lt _) (by omega) hsat
        rw [handleRange_positions h hserved, hlen, hpos, hoctets file hlen]
      · exact absurd hn hnot
  · have hex : ∃ r ∈ rs, ¬ r.Satisfiable n := by
      simpa only [not_forall, exists_prop] using hsat
    constructor
    · intro hall
      refine .inr ⟨hex, ?_⟩
      by_contra hserved
      have hstatus := (hall (newUnit n) (newUnit_length n)).2 hex
      rw [handleRange_positions h hserved] at hstatus
      cases hstatus
    · rintro (⟨hn, -⟩ | ⟨-, hrefused⟩) file hlen
      · exact absurd hn hsat
      · exact ⟨fun hn => absurd hn hsat, fun _ => by rw [handleRange_refused h hrefused]; rfl⟩

set_option maxRecDepth 4000 in
/-- A closed range of a file of four octets, where the length that was found is the one of the file. -/
theorem served_exactly_closed : (handleRange 4 [10, 11, 12, 13] (ascii "bytes=1-2")).content = [11, 12] := by
  have h : Holds (ascii "bytes=1-2") [.fromTo [49] [50]] := ⟨by decide, by decide, [], [], [], by decide, by decide +kernel⟩
  have hexact : Exact (toInt 4) 4 (toInt 4 - 1) [.fromTo [49] [50]] := ⟨by decide, trivial⟩
  exact (((served_exactly_iff 4 4 h).2 (.inl ⟨by decide, hexact⟩) [10, 11, 12, 13] rfl).1 (by decide))

set_option maxRecDepth 4000 in
/-- **The end of a range is taken over by an open one**: whatever the length that was found in memory, the header
`bytes=0-0,0-` is not answered with the octets that it denotes. -/
theorem range_end_kept :
    Holds (ascii "bytes=0-0,0-") [.fromTo [48] [48], .fromOn [48]] ∧
      (∀ r ∈ [ByteRange.fromTo [48] [48], .fromOn [48]], r.Satisfiable 2) ∧
      ∀ stSize : ℤ, (handleRange stSize [7, 8] (ascii "bytes=0-0,0-")).content ≠
        ([ByteRange.fromTo [48] [48], .fromOn [48]].map (·.octets [7, 8])).flatten := by
  have h : Holds (ascii "bytes=0-0,0-") [.fromTo [48] [48], .fromOn [48]] :=
    ⟨by decide, by decide, [], [], [], by decide, by decide +kernel⟩
  refine ⟨h, by decide, fun stSize => ?_⟩
  have hasked : ([ByteRange.fromTo [48] [48], .fromOn [48]].map (·.octets [7, 8])).flatten = [7, 7, 8] := by decide
  rw [hasked]
  by_cases hrefused : Refused (toInt stSize) (toInt stSize - 1) [.fromTo [48] [48], .fromOn [48]]
  · rw [handleRange_refused h hrefused]
    decide +kernel
  · have hpos : positions (toInt stSize) 2 (toInt stSize - 1) [.fromTo [48] [48], .fromOn [48]] = [0, 0] := by
      unfold positions
      rfl
    rw [handleRange_positions h hrefused, List.length_cons, List.length_cons, List.length_nil, hpos]
    decide

end ChannelEmulator.Http
