import ChannelEmulator.Proof.HttpRanges
import ChannelEmulator.Spec.HttpRequest

/-!
# The text of a request

* `ClientRequest.firstFrom_crLf`, `firstFrom_crLfCrLf`: the request line and the headers end where the searches say.
* `ClientRequest.reRequestLine_method`: no part of a request gives another method.
* `headerLoop_lines`: **the loop gets all headers**, `headerLoop_cut`: not of a section that is cut off.
* `sent_sent`: **headers that are set again change nothing.**
* `sent_told`: the length that a header tells.
-/

namespace ChannelEmulator.Http

/-! ## The request line -/

theorem isCapital_of_isSpace {b : Octet} (h : isSpace b) : isCapital b = false := by
  unfold isSpace at h
  unfold isCapital
  grind

theorem IsToken.not_mem_of_isSpace {u : Bytes} (h : IsToken u) {b : Octet} (hb : isSpace b) : b ∉ u := by
  intro hmem
  rw [h.2 b hmem] at hb
  cases hb

/-- What is captured of a line that starts with capital letters and has a space behind them. -/
theorem reRequestLine_of_capitals {u s : Bytes} (hne : u ≠ []) (hu : ∀ b ∈ u, isCapital b)
    (hs : ∀ b ∈ s.head?, isSpace b) : reRequestLine (u ++ s) =
      (List.range (s.takeWhile isSpace).length).reverse.findSome? fun n =>
        (reURI (s.drop (n + 1))).map fun captured => (u, captured) := by
  have hhead : ∀ b ∈ s.head?, isCapital b = false := fun b hb => isCapital_of_isSpace (hs b hb)
  have hstart : (u ++ s).dropWhile isSpace = u ++ s := by
    obtain ⟨b, u', rfl⟩ := List.exists_cons_of_ne_nil hne
    have hb : ¬ isSpace b := fun hspace => by
      have hcapital := hu b List.mem_cons_self
      rw [isCapital_of_isSpace hspace] at hcapital
      cases hcapital
    rw [List.cons_append, List.dropWhile_cons_of_neg hb]
  unfold reRequestLine
  simp only [hstart, takeWhile_append_head hu hhead, dropWhile_append_head hu hhead, if_neg hne]

/-- No other token is captured. -/
theorem reRequestLine_of_not_capitals {u s : Bytes} (hu : ∀ b ∈ u, isSpace b = false)
    (hcapitals : ¬ ∀ b ∈ u, isCapital b) : reRequestLine (u ++ s) = none := by
  have hleft : u.dropWhile isCapital ≠ [] := fun hnil => hcapitals (List.dropWhile_eq_nil_iff.1 hnil)
  have hstart : (u ++ s).dropWhile isSpace = u ++ s := by
    cases u with
    | nil => exact absurd rfl hleft
    | cons b u =>
      have hb : ¬ isSpace b := by rw [hu b List.mem_cons_self]; exact Bool.false_ne_true
      rw [List.cons_append, List.dropWhile_cons_of_neg hb]
  have hrest : (u ++ s).dropWhile isCapital = u.dropWhile isCapital ++ s := by
    rw [List.dropWhile_append, if_neg (by rwa [List.isEmpty_iff])]
  -- a small letter, a digit or a mark is left of the token, and it is no space
  have hspaces : (u.dropWhile isCapital ++ s).takeWhile isSpace = [] := by
    obtain ⟨b, rest, hcons⟩ := List.exists_cons_of_ne_nil hleft
    have hmem : b ∈ u := (List.dropWhile_sublist isCapital).subset (hcons ▸ List.mem_cons_self)
    have hb : ¬ isSpace b := by rw [hu b hmem]; exact Bool.false_ne_true
    rw [hcons, List.cons_append, List.takeWhile_cons_of_neg hb]
  unfold reRequestLine
  simp only [hstart, hrest, hspaces]
  split
  · rfl
  · rfl

/-- What is captured of a line that starts with a token: just the token, and only with a space behind it. -/
theorem reRequestLine_token {u s : Bytes} (hne : u ≠ []) (hu : ∀ b ∈ u, isSpace b = false)
    (hs : ∀ b ∈ s.head?, isSpace b) {c : Bytes × Bytes × Bytes} (h : reRequestLine (u ++ s) = some c) :
    c.1 = u ∧ s ≠ [] := by
  by_cases hcapitals : ∀ b ∈ u, isCapital b
  · rw [reRequestLine_of_capitals hne hcapitals hs] at h
    obtain ⟨n, hn, hmap⟩ := List.exists_of_findSome?_eq_some h
    obtain ⟨captured, -, rfl⟩ := Option.map_eq_some_iff.1 hmap
    refine ⟨rfl, fun hnil => ?_⟩
    subst hnil
    cases hn
  · rw [reRequestLine_of_not_capitals hu hcapitals] at h
    cases h

namespace ClientRequest

variable (q : ClientRequest)

/-- The request line without its end. -/
def lineText : Bytes := q.method ++ 32 :: (q.uri ++ 32 :: (ascii "HTTP/" ++ q.version))

theorem requestLine_eq : q.requestLine = q.lineText ++ crLf := by
  unfold requestLine lineText
  simp only [List.append_assoc, List.cons_append]

theorem length_requestLine : q.requestLine.length = q.lineText.length + 2 := by
  rw [requestLine_eq, List.length_append]
  rfl

theorem version_token : IsToken q.version := by
  have hdigit : ∀ b : Octet, isDigit b → isSpace b = false := fun b hb =>
    isSpace_of_isRangeOctet (isRangeOctet_of_isDigit hb)
  refine ⟨?_, fun b hb => ?_⟩
  · exact List.append_ne_nil_of_right_ne_nil _ (List.cons_ne_nil _ _)
  · rcases List.mem_append.1 hb with hmajor | htail
    · exact hdigit b (q.version_number.1.2 b hmajor)
    · rcases List.mem_cons.1 htail with rfl | hminor
      · rfl
      · exact hdigit b (q.version_number.2.2 b hminor)

theorem cr_notMem_lineText : (13 : Octet) ∉ q.lineText := by
  have hmethod := q.method_token.not_mem_of_isSpace (b := 13) rfl
  have huri := q.uri_token.not_mem_of_isSpace (b := 13) rfl
  have hversion := q.version_token.not_mem_of_isSpace (b := 13) rfl
  have hhttp : (13 : Octet) ∉ ascii "HTTP/" := by decide +kernel
  have hspace : (13 : Octet) ≠ 32 := by decide
  unfold lineText
  simp only [List.mem_append, List.mem_cons, hmethod, huri, hversion, hhttp, hspace, or_self, not_false_eq_true]

/-- The end of the request line is found. -/
theorem firstFrom_crLf : Framing.firstFrom crLf 0 q.raw = some q.lineText.length := by
  have hraw : q.raw = q.lineText ++ (crLf ++ (q.headerSection ++ q.body)) := by
    unfold raw
    rw [requestLine_eq, List.append_assoc]
  rw [hraw]
  exact Framing.firstFrom_append q.cr_notMem_lineText

/-- What is captured as the method in any part from the front. -/
theorem reRequestLine_method {k : ℕ} {c : Bytes × Bytes × Bytes} (h : reRequestLine (q.raw.take k) = some c) :
    c.1 = q.method := by
  have hraw : ∃ w, q.raw = q.method ++ 32 :: w := by
    unfold raw requestLine
    rw [List.append_assoc, List.cons_append]
    exact ⟨_, rfl⟩
  obtain ⟨w, hw⟩ := hraw
  rw [hw, List.take_append] at h
  by_cases hk : k ≤ q.method.length
  · rw [Nat.sub_eq_zero_of_le hk, List.take_zero] at h
    by_cases hne : q.method.take k = []
    · rw [hne] at h
      cases h
    · have htoken : ∀ b ∈ q.method.take k, isSpace b = false := fun b hb =>
        q.method_token.2 b (List.mem_of_mem_take hb)
      have hnil := (reRequestLine_token hne htoken (fun b hb => by cases hb) h).2
      exact absurd rfl hnil
  · rw [List.take_of_length_le (by omega), show k - q.method.length = (k - q.method.length - 1) + 1 by omega,
      List.take_succ_cons] at h
    have hhead : ∀ b ∈ (32 :: w.take (k - q.method.length - 1)).head?, isSpace b := by
      rintro b ⟨⟩
      rfl
    exact (reRequestLine_token q.method_token.1 q.method_token.2 hhead h).1

end ClientRequest

/-! ## What the expression matches -/

/-- No version starts with an octet that is no space. -/
theorem reVersion_of_head {u : Bytes} (h : ∀ b ∈ u.head?, isSpace b = false) : reVersion u = none := by
  have hnil : u.takeWhile isSpace = [] := by
    cases u with
    | nil => rfl
    | cons b u =>
      have hb : ¬ isSpace b := by rw [h b rfl]; exact Bool.false_ne_true
      exact List.takeWhile_cons_of_neg hb
  unfold reVersion
  exact if_neg fun hmatch => hmatch.1 hnil

/-- No version is in spaces. -/
theorem reVersion_of_spaces {u : Bytes} (h : ∀ b ∈ u, isSpace b) : reVersion u = none := by
  have hnil : u.dropWhile isSpace = [] := List.dropWhile_eq_nil_iff.2 h
  unfold reVersion
  refine if_neg fun hmatch => ?_
  have hlen := hmatch.2.2.1
  rw [hnil] at hlen
  cases hlen

namespace ClientRequest

variable (q : ClientRequest)

/-- The octets behind the URI. -/
def lineTail : Bytes := 32 :: (ascii "HTTP/" ++ (q.version ++ crLf))

theorem three_le_version : 3 ≤ q.version.length := by
  have hmajor := List.length_pos_iff.2 q.version_number.1.1
  have hminor := List.length_pos_iff.2 q.version_number.2.1
  unfold version
  rw [List.length_append, List.length_cons]
  omega

/-- A version of three octets is captured, and no other. -/
theorem isSome_reVersion_tail : (reVersion q.lineTail).isSome ↔ q.version.length = 3 := by
  have hdrop : q.lineTail.dropWhile isSpace = ascii "HTTP/" ++ (q.version ++ crLf) := rfl
  have htake : q.lineTail.takeWhile isSpace ≠ [] := List.cons_ne_nil _ _
  have hrest : (ascii "HTTP/" ++ (q.version ++ crLf)).drop 8 = q.version.drop 3 ++ crLf := by
    rw [show (8 : ℕ) = (ascii "HTTP/").length + 3 from rfl, ← List.drop_drop, List.drop_left,
      List.drop_append_of_le_length q.three_le_version]
  have hlength : 8 ≤ (ascii "HTTP/" ++ (q.version ++ crLf)).length := by
    have hthree := q.three_le_version
    rw [List.length_append, List.length_append, show (ascii "HTTP/").length = 5 from rfl]
    omega
  unfold reVersion
  simp only [hdrop, hrest]
  constructor
  · intro h
    have hall : (q.version.drop 3 ++ crLf).all isSpace := by
      by_contra hnot
      rw [if_neg fun hmatch => hnot hmatch.2.2.2] at h
      cases h
    by_contra hlonger
    have hne : q.version.drop 3 ≠ [] := fun hnil => by
      have hle := List.drop_eq_nil_iff.1 hnil
      have hthree := q.three_le_version
      omega
    obtain ⟨b, rest, hcons⟩ := List.exists_cons_of_ne_nil hne
    have hb : b ∈ q.version.drop 3 := hcons ▸ List.mem_cons_self
    have hspace := List.all_eq_true.1 hall b (List.mem_append_left _ hb)
    rw [q.version_token.2 b (List.mem_of_mem_drop hb)] at hspace
    cases hspace
  · intro hthree
    have hhttp : (ascii "HTTP/" ++ (q.version ++ crLf)).take 5 = ascii "HTTP/" := rfl
    rw [if_pos ⟨htake, hhttp, hlength, by rw [List.drop_eq_nil_of_le (Nat.le_of_eq hthree)]; rfl⟩]
    rfl

/-- Behind the space before the version, no version starts. -/
theorem reVersion_drop_tail {j : ℕ} (hj : 0 < j) : reVersion (q.lineTail.drop j) = none := by
  obtain ⟨i, rfl⟩ := Nat.exists_eq_add_of_lt hj
  have hsplit : q.lineTail.drop (0 + i + 1) = ((ascii "HTTP/" ++ q.version) ++ crLf).drop i := by
    unfold lineTail
    rw [Nat.zero_add, List.drop_succ_cons, List.append_assoc]
  rw [hsplit]
  by_cases hi : i < (ascii "HTTP/" ++ q.version).length
  · refine reVersion_of_head fun b hb => ?_
    rw [List.head?_drop, List.getElem?_append_left hi] at hb
    rcases List.mem_append.1 (List.mem_of_getElem? hb) with hhttp | hversion
    · have hall : ∀ b ∈ ascii "HTTP/", isSpace b = false := by decide +kernel
      exact hall b hhttp
    · exact q.version_token.2 b hversion
  · refine reVersion_of_spaces fun b hb => ?_
    rw [List.drop_append, List.drop_eq_nil_of_le (Nat.le_of_not_lt hi), List.nil_append] at hb
    have hall : ∀ b ∈ crLf, isSpace b := by decide +kernel
    exact hall b (List.mem_of_mem_drop hb)

/-- The URI is captured with a version of three octets, and with no other. -/
theorem isSome_reURI : (reURI (q.uri ++ q.lineTail)).isSome ↔ q.version.length = 3 := by
  have hpos := List.length_pos_iff.2 q.uri_token.1
  unfold reURI
  rw [List.findSome?_isSome_iff]
  constructor
  · rintro ⟨n, -, hn⟩
    rw [Option.isSome_map] at hn
    rcases Nat.lt_trichotomy (n + 1) q.uri.length with hlt | heq | hgt
    · rw [reVersion_of_head fun b hb => ?_] at hn
      · cases hn
      · rw [List.head?_drop, List.getElem?_append_left hlt] at hb
        exact q.uri_token.2 b (List.mem_of_getElem? hb)
    · rw [heq, List.drop_left] at hn
      exact q.isSome_reVersion_tail.1 hn
    · rw [List.drop_append, List.drop_eq_nil_of_le (Nat.le_of_lt hgt), List.nil_append,
        q.reVersion_drop_tail (by omega)] at hn
      cases hn
  · intro hthree
    refine ⟨q.uri.length - 1, ?_, ?_⟩
    · rw [List.mem_reverse, List.mem_range, List.length_append]
      omega
    · rw [Option.isSome_map, Nat.sub_add_cancel hpos, List.drop_left]
      exact q.isSome_reVersion_tail.2 hthree

/-- **The request lines that match**: the method is written in capital letters, and the version has three octets. -/
theorem isSome_reRequestLine :
    (reRequestLine q.requestLine).isSome ↔ (∀ b ∈ q.method, isCapital b) ∧ q.version.length = 3 := by
  have hline : q.requestLine = q.method ++ 32 :: (q.uri ++ q.lineTail) := rfl
  have hhead : ∀ b ∈ (32 :: (q.uri ++ q.lineTail)).head?, isSpace b := by
    rintro b ⟨⟩
    rfl
  have hone : (32 :: (q.uri ++ q.lineTail)).takeWhile isSpace = [32] := by
    obtain ⟨b, uri, hcons⟩ := List.exists_cons_of_ne_nil q.uri_token.1
    have hb : ¬ isSpace b := by
      rw [q.uri_token.2 b (hcons ▸ List.mem_cons_self)]
      exact Bool.false_ne_true
    rw [List.takeWhile_cons_of_pos rfl, hcons, List.cons_append, List.takeWhile_cons_of_neg hb]
  rw [hline]
  by_cases hcapitals : ∀ b ∈ q.method, isCapital b
  · rw [reRequestLine_of_capitals q.method_token.1 hcapitals hhead, hone, ← q.isSome_reURI]
    have hreverse : (List.range [(32 : Octet)].length).reverse = [0] := rfl
    rw [hreverse, List.findSome?_isSome_iff]
    constructor
    · rintro ⟨n, hn, hsome⟩
      rw [List.mem_singleton] at hn
      rw [hn, Option.isSome_map] at hsome
      exact ⟨hcapitals, hsome⟩
    · rintro ⟨-, hsome⟩
      exact ⟨0, List.mem_singleton_self 0, by rw [Option.isSome_map]; exact hsome⟩
  · rw [reRequestLine_of_not_capitals q.method_token.2 hcapitals]
    exact ⟨fun h => absurd h Bool.false_ne_true, fun h => absurd h.1 hcapitals⟩

end ClientRequest

/-! ## The header section -/

@[simp] theorem crlfTokens_crLf (token rest : Bytes) :
    crlfTokens token (13 :: 10 :: rest) = token :: crlfTokens [] rest := by
  cases token <;> rfl

/-- A carriage return at the end belongs to the text. -/
@[simp] theorem crlfTokens_cr (token : Bytes) : crlfTokens token [13] = [token ++ [13]] := by
  cases token <;> rfl

theorem crlfTokens_cons {token u : Bytes} {b : Octet} (hb : b ≠ 13) :
    crlfTokens token (b :: u) = crlfTokens (token ++ [b]) u := by
  rw [crlfTokens]
  intro _ hcr
  exact absurd hcr hb

/-- The tokens of a line that has an end. -/
theorem crlfTokens_line {u : Bytes} (hu : 13 ∉ u) (token rest : Bytes) :
    crlfTokens token (u ++ 13 :: 10 :: rest) = (token ++ u) :: crlfTokens [] rest := by
  induction u generalizing token with
  | nil => rw [List.nil_append, List.append_nil, crlfTokens_crLf]
  | cons b u ih =>
    have hb : b ≠ 13 := fun h => hu (h ▸ List.mem_cons_self)
    have hrest : 13 ∉ u := fun h => hu (List.mem_cons_of_mem b h)
    rw [List.cons_append, crlfTokens_cons hb, ih hrest, List.append_assoc, List.singleton_append]

/-- The tokens of a line that is cut off: one, or none for no octets. -/
theorem crlfTokens_open {u s : Bytes} (hu : 13 ∉ u) (hs : s = [] ∨ s = [13]) (token : Bytes) :
    crlfTokens token (u ++ s) = [] ∨ (token ++ u ++ s ≠ [] ∧ crlfTokens token (u ++ s) = [token ++ u ++ s]) := by
  induction u generalizing token with
  | nil =>
    rcases hs with rfl | rfl
    · cases token with
      | nil => exact Or.inl rfl
      | cons b token =>
        refine Or.inr ⟨List.cons_ne_nil _ _, ?_⟩
        simp only [List.append_nil]
        rfl
    · refine Or.inr ⟨List.append_ne_nil_of_right_ne_nil _ (List.cons_ne_nil _ _), ?_⟩
      rw [List.append_nil, List.nil_append, crlfTokens_cr]
  | cons b u ih =>
    have hb : b ≠ 13 := fun h => hu (h ▸ List.mem_cons_self)
    have hrest : 13 ∉ u := fun h => hu (List.mem_cons_of_mem b h)
    rw [List.cons_append, crlfTokens_cons hb, List.append_cons token b u]
    exact ih hrest (token ++ [b])

/-- What a line sets. -/
def HeaderMap.store (headers : HeaderMap) (line : Bytes) : HeaderMap :=
  match reHeader line with
  | some (name, value) => headers.set name value
  | none => headers

theorem headerLoop_cons {line : Bytes} (hne : line ≠ []) (rest : List Bytes) (headers : HeaderMap) :
    headerLoop (line :: rest) headers = headerLoop rest (headers.store line) := by
  unfold HeaderMap.store
  show (match reHeader line with
    | some (name, value) => headerLoop rest (headers.set name value)
    | none => if line = [] then (headers, true) else headerLoop rest headers) = _
  cases reHeader line with
  | none => exact if_neg hne
  | some c => rfl

namespace Header

variable (h : Header)

theorem text_ne_nil : h.text ≠ [] := List.append_ne_nil_of_right_ne_nil _ (List.cons_ne_nil _ _)

theorem cr_notMem_text : (13 : Octet) ∉ h.text := by
  have hname := h.name_token.not_mem_of_isSpace (b := 13) rfl
  have hcolon : (13 : Octet) ≠ 58 := by decide
  unfold text
  simp only [List.mem_append, List.mem_cons, hname, hcolon, h.value_line.1, or_self, not_false_eq_true]

end Header

/-- The lines of headers with their ends. -/
def headerLines (hs : List Header) : Bytes := hs.flatMap fun h => h.text ++ crLf

theorem headerLines_cons (h : Header) (hs : List Header) (rest : Bytes) :
    headerLines (h :: hs) ++ rest = h.text ++ 13 :: 10 :: (headerLines hs ++ rest) := by
  unfold headerLines
  rw [List.flatMap_cons, List.append_assoc, List.append_assoc]
  rfl

/-- What headers set. -/
def sent (hs : List Header) (headers : HeaderMap) : HeaderMap := hs.foldl (fun m h => m.store h.text) headers

theorem sent_cons (h : Header) (hs : List Header) (headers : HeaderMap) :
    sent (h :: hs) headers = sent hs (headers.store h.text) := rfl

/-- **The loop gets all headers**, whatever is behind the blank line. -/
theorem headerLoop_lines (hs : List Header) (rest : Bytes) (headers : HeaderMap) :
    headerLoop (crlfTokens [] (headerLines hs ++ (crLf ++ rest))) headers = (sent hs headers, true) := by
  induction hs generalizing headers with
  | nil => rfl
  | cons h hs ih =>
    rw [headerLines_cons, crlfTokens_line h.cr_notMem_text, List.nil_append, headerLoop_cons h.text_ne_nil, ih,
      sent_cons]

/-- The loop does not get all headers of a section that is cut off. -/
theorem headerLoop_cut {hs : List Header} {k : ℕ} (hk : k < (headerLines hs).length + 2) (headers : HeaderMap) :
    (headerLoop (crlfTokens [] ((headerLines hs ++ crLf).take k)) headers).2 = false := by
  have hopen : ∀ {u s : Bytes}, 13 ∉ u → s = [] ∨ s = [13] → ∀ m,
      (headerLoop (crlfTokens [] (u ++ s)) m).2 = false := by
    intro u s hu hs m
    rcases crlfTokens_open hu hs [] with hnil | ⟨hne, hone⟩
    · rw [hnil]
      rfl
    · rw [hone, headerLoop_cons hne]
      rfl
  induction hs generalizing k headers with
  | nil =>
    have hcases : k = 0 ∨ k = 1 := by
      have : (headerLines []).length = 0 := rfl
      omega
    rcases hcases with rfl | rfl
    · rfl
    · rfl
  | cons h hs ih =>
    have hlen := congrArg List.length (headerLines_cons h hs [])
    simp only [List.append_nil, List.length_append, List.length_cons] at hlen
    rw [headerLines_cons, List.take_append]
    have hcut : 13 ∉ h.text.take k := fun hmem => h.cr_notMem_text (List.mem_of_mem_take hmem)
    rcases hd : k - h.text.length with _ | _ | n
    · rw [List.take_zero]
      exact hopen hcut (Or.inl rfl) headers
    · rw [List.take_succ_cons, List.take_zero]
      exact hopen hcut (Or.inr rfl) headers
    · rw [List.take_succ_cons, List.take_succ_cons, List.take_of_length_le (by omega),
        crlfTokens_line h.cr_notMem_text, List.nil_append, headerLoop_cons h.text_ne_nil]
      exact ih (by omega) _

/-- Two line ends after one another are only at the end of the headers. -/
theorem headerLines_le_of_standsAt {hs : List Header} (hne : hs ≠ []) {rest : Bytes} {j : ℕ}
    (hj : Framing.StandsAt crLfCrLf (headerLines hs ++ (crLf ++ rest)) j) : (headerLines hs).length ≤ j + 2 := by
  induction hs generalizing j with
  | nil => exact absurd rfl hne
  | cons h hs ih =>
    have hlen := congrArg List.length (headerLines_cons h hs [])
    simp only [List.append_nil, List.length_append, List.length_cons] at hlen
    rw [headerLines_cons] at hj
    have hfirst := hj.getElem? (j := 0) (by decide)
    have hthird := hj.getElem? (j := 2) (by decide)
    by_cases hlt : j < h.text.length
    · rw [Nat.add_zero, List.getElem?_append_left hlt] at hfirst
      exact absurd (List.mem_of_getElem? hfirst) h.cr_notMem_text
    · obtain ⟨i, rfl⟩ := Nat.exists_eq_add_of_le (Nat.le_of_not_lt hlt)
      rw [Nat.add_assoc, List.getElem?_append_right (Nat.le_add_right _ _), Nat.add_sub_cancel_left] at hfirst hthird
      cases hs with
      | nil =>
        have : (headerLines []).length = 0 := rfl
        omega
      | cons h' hs =>
        rcases i with _ | _ | i
        · -- the next header starts here
          rw [headerLines_cons] at hthird
          obtain ⟨b, text, htext⟩ := List.exists_cons_of_ne_nil h'.text_ne_nil
          rw [htext] at hthird
          have hb : b = 13 := Option.some.inj hthird
          exact absurd (htext ▸ hb ▸ List.mem_cons_self) h'.cr_notMem_text
        · have hlf : (10 : Octet) = 13 := Option.some.inj hfirst
          exact absurd hlf (by decide)
        · have hsplit : h.text ++ 13 :: 10 :: (headerLines (h' :: hs) ++ (crLf ++ rest)) =
              (h.text ++ crLf) ++ (headerLines (h' :: hs) ++ (crLf ++ rest)) := by
            rw [List.append_assoc]
            rfl
          have hlength : (h.text ++ crLf).length = h.text.length + 2 := List.length_append
          rw [hsplit, Framing.standsAt_append (by omega), hlength,
            show h.text.length + (i + 1 + 1) - (h.text.length + 2) = i by omega] at hj
          have hle := ih (List.cons_ne_nil h' hs) hj
          omega

/-- Headers end with a line end. -/
theorem headerLines_end {hs : List Header} (hne : hs ≠ []) : ∃ u, headerLines hs = u ++ crLf := by
  obtain ⟨hs', h, rfl⟩ := List.eq_nil_or_concat' hs |>.resolve_left hne
  refine ⟨headerLines hs' ++ h.text, ?_⟩
  unfold headerLines
  rw [List.flatMap_append, List.flatMap_singleton, List.append_assoc]

namespace ClientRequest

variable (q : ClientRequest)

theorem headerSection_eq : q.headerSection = headerLines q.headers ++ crLf := rfl

theorem length_headerSection : q.headerSection.length = (headerLines q.headers).length + 2 := List.length_append

/-- The end of the headers is found, if there are any. -/
theorem firstFrom_crLfCrLf (hne : q.headers ≠ []) :
    Framing.firstFrom crLfCrLf q.requestLine.length q.raw = some (q.headerEnd - 4) := by
  obtain ⟨u, hu⟩ := headerLines_end hne
  have hlines : (headerLines q.headers).length = u.length + 2 := by
    rw [hu]
    exact List.length_append
  have hend : q.headerEnd - 4 = q.requestLine.length + u.length := by
    unfold headerEnd
    rw [length_headerSection]
    omega
  refine (Framing.firstFrom_eq_some_iff (List.cons_ne_nil _ _)).2 ⟨by omega, ?_, ?_⟩
  · unfold raw
    rw [hend, Framing.standsAt_append (by omega), Nat.add_sub_cancel_left, headerSection_eq, hu]
    have hsplit : u ++ crLf ++ crLf ++ q.body = u ++ (crLfCrLf ++ q.body) := by
      simp only [List.append_assoc]
      rfl
    rw [hsplit, Framing.standsAt_append (Nat.le_refl _), Nat.sub_self]
    rfl
  · intro j hj hlt hstands
    unfold raw at hstands
    rw [Framing.standsAt_append hj, headerSection_eq, List.append_assoc] at hstands
    have hle := headerLines_le_of_standsAt hne hstands
    omega

/-- No end of the headers is found if there are none. -/
theorem firstFrom_crLfCrLf_nil (hnil : q.headers = []) :
    Framing.firstFrom crLfCrLf q.requestLine.length q.raw = none := by
  have hbody : q.body = [] := q.body_told fun h hh => by
    rw [hnil] at hh
    cases hh
  refine (Framing.firstFrom_eq_none_iff (List.cons_ne_nil _ _)).2 fun j hj hstands => ?_
  have hle : j + 4 ≤ q.raw.length := hstands.add_le (List.cons_ne_nil _ _)
  have hraw : q.raw.length = q.requestLine.length + 2 := by
    unfold raw
    rw [hbody, List.append_nil, List.length_append, length_headerSection, hnil]
    rfl
  omega

end ClientRequest

/-! ## What the headers set -/

theorem HeaderMap.store_some {line : Bytes} {c : Bytes × Bytes} (h : reHeader line = some c) (m : HeaderMap) :
    m.store line = m.set c.1 c.2 := by
  unfold HeaderMap.store
  rw [h]

theorem HeaderMap.store_none {line : Bytes} (h : reHeader line = none) (m : HeaderMap) : m.store line = m := by
  unfold HeaderMap.store
  rw [h]

/-- At each name, headers either change nothing or set one value, whatever was there. -/
theorem sent_cases (hs : List Header) (key : Bytes) :
    (∀ m : HeaderMap, sent hs m key = m key) ∨ ∃ value, ∀ m : HeaderMap, sent hs m key = some value := by
  induction hs with
  | nil => exact Or.inl fun m => rfl
  | cons h hs ih =>
    rcases ih with hsame | ⟨value, hvalue⟩
    · cases hre : reHeader h.text with
      | none =>
        refine Or.inl fun m => ?_
        rw [sent_cons, hsame, HeaderMap.store_none hre]
      | some c =>
        by_cases hkey : key = c.1.map toLower
        · refine Or.inr ⟨c.2, fun m => ?_⟩
          rw [sent_cons, hsame, HeaderMap.store_some hre, HeaderMap.set, hkey, Function.update_self]
        · refine Or.inl fun m => ?_
          rw [sent_cons, hsame, HeaderMap.store_some hre, HeaderMap.set, Function.update_of_ne hkey]
    · refine Or.inr ⟨value, fun m => ?_⟩
      rw [sent_cons, hvalue]

/-- **Headers that are set again change nothing.** -/
theorem sent_sent (hs : List Header) (m : HeaderMap) : sent hs (sent hs m) = sent hs m := by
  funext key
  rcases sent_cases hs key with hsame | ⟨value, hvalue⟩
  · exact hsame _
  · rw [hvalue, hvalue]

namespace Header

variable (h : Header)

theorem dropWhile_text : h.text.dropWhile isSpace = h.text := by
  have hne := h.name_token.1
  unfold text
  obtain ⟨b, name, hname⟩ := List.exists_cons_of_ne_nil hne
  have hb : ¬ isSpace b := by
    rw [h.name_token.2 b (hname ▸ List.mem_cons_self)]
    exact Bool.false_ne_true
  rw [hname, List.cons_append, List.dropWhile_cons_of_neg hb]

/-- The name that is captured is the name of the header. -/
theorem reHeader_name {c : Bytes × Bytes} (hc : reHeader h.text = some c) : c.1 = h.name := by
  unfold reHeader at hc
  simp only [dropWhile_text] at hc
  have hcolon : ∀ b ∈ (58 :: h.value).head?, isWord b = false := by
    rintro b ⟨⟩
    rfl
  by_cases hwords : h.name.dropWhile isWord = []
  · have hword : ∀ b ∈ h.name, isWord b := List.dropWhile_eq_nil_iff.1 hwords
    unfold text at hc
    rw [takeWhile_append_head hword hcolon, dropWhile_append_head hword hcolon] at hc
    simp only at hc
    split_ifs at hc
    · exact (congrArg Prod.fst (Option.some.inj hc)).symm
    · exact (congrArg Prod.fst (Option.some.inj hc)).symm
  · have hrest : h.text.dropWhile isWord = h.name.dropWhile isWord ++ 58 :: h.value := by
      unfold text
      rw [List.dropWhile_append, if_neg (by rwa [List.isEmpty_iff])]
    obtain ⟨b, rest, hcons⟩ := List.exists_cons_of_ne_nil hwords
    have hmem : b ∈ h.name := (List.dropWhile_sublist isWord).subset (hcons ▸ List.mem_cons_self)
    have hb : b ≠ 58 := fun hb => h.name_colon (hb ▸ hmem)
    rw [hrest, hcons, List.cons_append] at hc
    split at hc
    · next heq =>
      injection heq with hhead
      exact absurd hhead hb
    · cases hc

theorem isWord_of_key (hkey : h.key = ascii "content-length") : ∀ b ∈ h.name, isWord b := by
  have hall : ∀ b : Octet, toLower b ∈ ascii "content-length" → isWord b := by
    have hfin : ∀ i : Fin 256, toLower (UInt8.ofNat i) ∈ ascii "content-length" → isWord (UInt8.ofNat i) := by
      decide +kernel
    intro b hb
    have hofNat : UInt8.ofNat b.toNat = b := UInt8.ofNat_toNat
    have := hfin ⟨b.toNat, b.toNat_lt⟩
    rw [hofNat] at this
    exact this hb
  intro b hb
  refine hall b ?_
  rw [← hkey]
  exact List.mem_map_of_mem hb

end Header

/-- `atoi` of digits with what is no digit behind them. -/
theorem atoiText_number {digits s : Bytes} (hdigits : ByteRange.Number digits) (hs : ∀ b ∈ s, isSpace b) :
    atoiText (digits ++ s) = atoi digits := by
  have hhead : ∀ b ∈ s.head?, isDigit b = false := fun b hb => isDigit_of_isSpace (hs b (List.mem_of_mem_head? hb))
  have htake : (digits ++ s).takeWhile isDigit = digits := takeWhile_append_head hdigits.2 hhead
  obtain ⟨d, ds, rfl⟩ := List.exists_cons_of_ne_nil hdigits.1
  have hd : isDigit d := hdigits.2 d List.mem_cons_self
  have hspace : ¬ isSpace d := by
    rw [isSpace_of_isRangeOctet (isRangeOctet_of_isDigit hd)]
    exact Bool.false_ne_true
  unfold atoiText
  rw [List.cons_append, List.dropWhile_cons_of_neg hspace]
  split
  · next heq =>
    obtain ⟨hminus, -⟩ := List.cons.inj heq
    rw [hminus] at hd
    exact absurd hd (by decide)
  · next heq =>
    obtain ⟨hplus, -⟩ := List.cons.inj heq
    rw [hplus] at hd
    exact absurd hd (by decide)
  · rw [← List.cons_append, htake]

/-- A header that tells a length sets it. -/
theorem Header.Tells.reHeader_text {h : Header} {n : ℕ} (htells : h.Tells n) (hkey : h.key = ascii "content-length") :
    ∃ value, reHeader h.text = some (h.name, value) ∧ atoiText value = toInt (min n 9223372036854775807 : ℕ) := by
  obtain ⟨s₁, digits, s₂, hs, hdigits, hvalue, rfl⟩ := htells
  have hs₂ : ∀ b ∈ s₂, isSpace b := fun b hb => hs b (List.mem_append_right s₁ hb)
  refine ⟨digits ++ s₂, ?_, atoiText_number hdigits hs₂⟩
  have hcolon : ∀ b ∈ (58 :: h.value).head?, isWord b = false := by
    rintro b ⟨⟩
    rfl
  have hword := h.isWord_of_key hkey
  have hdigit : ∀ b ∈ (digits ++ s₂).head?, isSpace b = false := by
    obtain ⟨d, ds, rfl⟩ := List.exists_cons_of_ne_nil hdigits.1
    rintro b ⟨⟩
    exact isSpace_of_isRangeOctet (isRangeOctet_of_isDigit (hdigits.2 d List.mem_cons_self))
  have hdrop : h.value.dropWhile isSpace = digits ++ s₂ := by
    rw [hvalue, List.append_assoc]
    exact dropWhile_append_head (fun b hb => hs b (List.mem_append_left s₂ hb)) hdigit
  have hne : digits ++ s₂ ≠ [] := List.append_ne_nil_of_left_ne_nil hdigits.1 s₂
  have hvaluene : h.value ≠ [] := fun hnil => hne (by rw [← hdrop, hnil]; rfl)
  unfold reHeader
  simp only [h.dropWhile_text]
  unfold Header.text
  rw [takeWhile_append_head hword hcolon, dropWhile_append_head hword hcolon]
  simp only [hdrop]
  rw [if_neg (not_or.2 ⟨h.name_token.1, hvaluene⟩), if_neg hne]

/-- Headers of other names. -/
theorem sent_of_key_ne {hs : List Header} {key : Bytes} (hkeys : ∀ h ∈ hs, h.key ≠ key) (m : HeaderMap) :
    sent hs m key = m key := by
  induction hs generalizing m with
  | nil => rfl
  | cons h hs ih =>
    rw [sent_cons, ih fun h' hh' => hkeys h' (List.mem_cons_of_mem h hh')]
    cases hre : reHeader h.text with
    | none => rw [HeaderMap.store_none hre]
    | some c =>
      have hname := h.reHeader_name hre
      have hkey : key ≠ c.1.map toLower := fun heq => hkeys h List.mem_cons_self (by rw [heq, hname]; rfl)
      rw [HeaderMap.store_some hre, HeaderMap.set, Function.update_of_ne hkey]

/-- Headers one of which tells the length. -/
theorem sent_told {hs : List Header} {n : ℕ} (htold : ∀ h ∈ hs, h.key = ascii "content-length" → h.Tells n)
    (hex : ∃ h ∈ hs, h.key = ascii "content-length") (m : HeaderMap) :
    ∃ value, sent hs m (ascii "content-length") = some value ∧
      atoiText value = toInt (min n 9223372036854775807 : ℕ) := by
  induction hs generalizing m with
  | nil =>
    obtain ⟨h, hh, -⟩ := hex
    cases hh
  | cons h hs ih =>
    have hrest : ∀ h' ∈ hs, h'.key = ascii "content-length" → h'.Tells n := fun h' hh' =>
      htold h' (List.mem_cons_of_mem h hh')
    by_cases hlater : ∃ h' ∈ hs, h'.key = ascii "content-length"
    · rw [sent_cons]
      exact ih hrest hlater _
    · have hnone : ∀ h' ∈ hs, h'.key ≠ ascii "content-length" := fun h' hh' heq => hlater ⟨h', hh', heq⟩
      obtain ⟨h', hh', hkey⟩ := hex
      rcases List.mem_cons.1 hh' with rfl | hmem
      · obtain ⟨value, hre, hvalue⟩ := (htold h' List.mem_cons_self hkey).reHeader_text hkey
        refine ⟨value, ?_, hvalue⟩
        rw [sent_cons, sent_of_key_ne hnone, HeaderMap.store_some hre, HeaderMap.set, ← hkey]
        exact Function.update_self _ _ _
      · exact absurd hkey (hnone h' hmem)

end ChannelEmulator.Http
