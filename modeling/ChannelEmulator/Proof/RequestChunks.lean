import ChannelEmulator.Proof.RequestText
import Mathlib.Data.List.Induction

/-!
# Requests that arrive in chunks

* `Begun.parseUnit_take`: **`parse` of a part of a request**: it waits until the octets that are reported are there.
* `After.handleInput_take`: **one chunk more**, `after_feed`: the chunks before the last one.
* `understood_iff_passes`: **a request is understood however it arrives just in chunks in which it passes.**
* `passes_iff_of_short`: **lengths below 2^31 pass** if the method is written in capital letters, the version has three
  octets, there is a header, and the first chunk holds the request line.
-/

namespace ChannelEmulator.Http

/-! ## Lengths that are kept in an `int` -/

theorem FitsInt.toInt_cases {n : ℕ} (h : FitsInt n) : toInt n = n ∨ toInt n < 0 := by
  unfold FitsInt at h
  unfold toInt
  rw [Int.bmod_def]
  omega

/-- Other lengths become smaller. -/
theorem exists_toInt_lt {n : ℕ} (h : ¬ FitsInt n) : ∃ j : ℕ, j < n ∧ toInt n = j := by
  unfold FitsInt at h
  refine ⟨n % 4294967296, by omega, ?_⟩
  unfold toInt
  rw [Int.bmod_def]
  omega

theorem FitsInt.le_of_not {n : ℕ} (h : ¬ FitsInt n) : 2147483648 ≤ n := by
  unfold FitsInt at h
  omega

theorem getAsString_of_toInt_eq {length j : ℕ} (h : toInt length = j) (u : Bytes) (offset : ℕ) :
    getAsString u offset length = (u.drop offset).take j := by
  have hneg : ¬ toInt length < 0 := by
    rw [h]
    exact Int.not_lt.2 (Int.natCast_nonneg j)
  unfold getAsString
  rw [if_neg hneg, h, Int.toNat_natCast]

theorem getAsString_of_toInt_neg {length : ℕ} (h : toInt length < 0) (u : Bytes) (offset : ℕ) :
    getAsString u offset length = u.drop offset := if_pos h

theorem crLf_ne_nil : crLf ≠ [] := List.cons_ne_nil _ _

theorem length_crLf : crLf.length = 2 := rfl

theorem crLfCrLf_ne_nil : crLfCrLf ≠ [] := List.cons_ne_nil _ _

theorem length_crLfCrLf : crLfCrLf.length = 4 := rfl

/-- What is cut out is a part of the front. -/
theorem getAsString_zero (u : Bytes) (length : ℕ) : ∃ j, getAsString u 0 length = u.take j := by
  unfold getAsString
  rw [List.drop_zero]
  split
  · exact ⟨u.length, List.take_length.symm⟩
  · exact ⟨_, rfl⟩

theorem parseHeaders_of_found {data : Bytes} {dataOffset offset : ℕ}
    (h : Framing.firstFrom crLfCrLf dataOffset data = some offset) (m : HeaderMap) : parseHeaders data m dataOffset =
      readHeaders (getAsString data dataOffset (offset + 4 - dataOffset)) m (offset + 4) := by
  unfold parseHeaders
  rw [h]

theorem readHeaders_of_got {top : Bytes} {m m' : HeaderMap} (h : headerLoop (crlfTokens [] top) m = (m', true))
    (headersEnd : ℕ) : readHeaders top m headersEnd = (m', .ok headersEnd) := by
  unfold readHeaders
  rw [h]

theorem got_of_readHeaders {top : Bytes} {m m' : HeaderMap} {headersEnd headerLen : ℕ}
    (h : readHeaders top m headersEnd = (m', .ok headerLen)) : (headerLoop (crlfTokens [] top) m).2 = true := by
  unfold readHeaders at h
  split at h
  · next hloop => rw [hloop]
  · cases (Prod.mk.inj h).2

namespace ClientRequest

variable (q : ClientRequest)

theorem length_raw : q.raw.length = q.headerEnd + q.body.length := by
  unfold raw headerEnd
  rw [List.length_append, List.length_append, Nat.add_assoc]

/-- A part of the request that reaches behind the headers. -/
theorem drop_take {k : ℕ} (hk : q.headerEnd ≤ k) :
    (q.raw.take k).drop q.requestLine.length = q.headerSection ++ q.body.take (k - q.headerEnd) := by
  have hle : q.requestLine.length + q.headerSection.length ≤ k := hk
  unfold raw headerEnd
  rw [List.drop_take, List.drop_left, List.take_append, List.take_of_length_le (by omega), Nat.sub_sub]

/-- **The headers of a part that reaches behind them.** -/
theorem parseHeaders_take (hne : q.headers ≠ []) (hlen : FitsInt q.headerSection.length) {k : ℕ}
    (hk : q.headerEnd ≤ k) (m : HeaderMap) :
    parseHeaders (q.raw.take k) m q.requestLine.length = (sent q.headers m, .ok q.headerEnd) := by
  have hfour : 4 ≤ q.headerSection.length := by
    obtain ⟨u, hu⟩ := headerLines_end hne
    rw [q.length_headerSection, hu, List.length_append]
    exact Nat.add_le_add_right (Nat.le_add_left 2 u.length) 2
  have hend : q.headerEnd = q.requestLine.length + q.headerSection.length := rfl
  have hfind := Framing.firstFrom_take_some crLfCrLf_ne_nil (q.firstFrom_crLfCrLf hne)
    (k := k) (by rw [length_crLfCrLf]; omega)
  have htop : ∃ rest, getAsString (q.raw.take k) q.requestLine.length q.headerSection.length =
      headerLines q.headers ++ (crLf ++ rest) := by
    rcases hlen.toInt_cases with hkept | hneg
    · rw [getAsString_of_toInt_eq hkept, q.drop_take hk, List.take_left]
      exact ⟨[], by rw [List.append_nil, q.headerSection_eq]⟩
    · rw [getAsString_of_toInt_neg hneg, q.drop_take hk, q.headerSection_eq, List.append_assoc]
      exact ⟨_, rfl⟩
  obtain ⟨rest, htop⟩ := htop
  have hlength : q.headerEnd - 4 + 4 - q.requestLine.length = q.headerSection.length := by omega
  rw [parseHeaders_of_found hfind, hlength, htop, readHeaders_of_got (headerLoop_lines q.headers rest m),
    show q.headerEnd - 4 + 4 = q.headerEnd by omega]

/-- Before the end of the headers, none are set. -/
theorem parseHeaders_short {k : ℕ} (hk : k < q.headerEnd) (m : HeaderMap) :
    ∃ fault, parseHeaders (q.raw.take k) m q.requestLine.length = (m, .error fault) := by
  have hfind : Framing.firstFrom crLfCrLf q.requestLine.length (q.raw.take k) = none := by
    by_cases hne : q.headers = []
    · have hnone := (Framing.firstFrom_eq_none_iff crLfCrLf_ne_nil).1 (q.firstFrom_crLfCrLf_nil hne)
      refine (Framing.firstFrom_eq_none_iff crLfCrLf_ne_nil).2 fun j hj hstands => ?_
      exact hnone j hj ((Framing.standsAt_take crLfCrLf_ne_nil).1 hstands).1
    · refine Framing.firstFrom_take_none crLfCrLf_ne_nil (q.firstFrom_crLfCrLf hne) ?_
      rw [length_crLfCrLf]
      omega
  unfold parseHeaders
  rw [hfind]
  exact ⟨_, rfl⟩

/-- The headers of the whole request are got only if there are some, and if their length is kept. -/
theorem parseHeaders_raw {m m' : HeaderMap} {headerLen : ℕ}
    (h : parseHeaders q.raw m q.requestLine.length = (m', .ok headerLen)) :
    q.headers ≠ [] ∧ FitsInt q.headerSection.length := by
  have hne : q.headers ≠ [] := fun hnil => by
    unfold parseHeaders at h
    rw [q.firstFrom_crLfCrLf_nil hnil] at h
    cases (Prod.mk.inj h).2
  refine ⟨hne, ?_⟩
  by_contra hlen
  obtain ⟨j, hj, hint⟩ := exists_toInt_lt hlen
  have hend : q.headerEnd = q.requestLine.length + q.headerSection.length := rfl
  have hfour : 4 ≤ q.headerSection.length := Nat.le_trans (by decide) (FitsInt.le_of_not hlen)
  have hlength : q.headerEnd - 4 + 4 - q.requestLine.length = q.headerSection.length := by omega
  have hcut : getAsString q.raw q.requestLine.length q.headerSection.length =
      (headerLines q.headers ++ crLf).take j := by
    rw [getAsString_of_toInt_eq hint]
    unfold raw
    rw [List.drop_left, List.take_append_of_le_length (Nat.le_of_lt hj), q.headerSection_eq]
  have hshort : j < (headerLines q.headers).length + 2 := by
    rw [← q.length_headerSection]
    exact hj
  have hloop := headerLoop_cut hshort m
  rw [parseHeaders_of_found (q.firstFrom_crLfCrLf hne), hlength, hcut] at h
  rw [got_of_readHeaders h] at hloop
  cases hloop

end ClientRequest

/-! ## One chunk -/

theorem assignMethod_assignMethod (text : Bytes) (method : Method) :
    assignMethod text (assignMethod text method) = assignMethod text method := by
  unfold assignMethod
  cases knownMethods.find? fun m => text = methodStr m with
  | none => rfl
  | some m => rfl

namespace HttpRequest

variable {q : ClientRequest}

/-- A request that holds nothing but what a part of the client's request has set. -/
structure Begun (q : ClientRequest) (req : HttpRequest) : Prop where
  method_eq : req.method = .UNKNOWN ∨ req.method = assignMethod q.method .UNKNOWN
  headerMap_eq : req.headerMap = (fun _ => none) ∨ req.headerMap = sent q.headers fun _ => none
  reported_eq : req.reportedContentLength = 0 ∨ req.reportedContentLength = q.reported
  content_eq : req.content = none

/-- A request that is handed on for a part of the client's request, with what its first line captures. -/
structure Finished (q : ClientRequest) (unit : Bytes) (captured : Bytes × Bytes × Bytes) (req : HttpRequest) :
    Prop where
  method_eq : req.method = assignMethod q.method .UNKNOWN
  requestURI_eq : req.requestURI = captured.2.1
  headerMap_eq : req.headerMap = sent q.headers fun _ => none
  content_eq : req.content = if q.reported = 0 then none else some (unit.drop q.headerEnd)

/-- Two requests that are handed on for one part say the same. -/
theorem Finished.same {unit : Bytes} {captured : Bytes × Bytes × Bytes} {req req' : HttpRequest}
    (h : Finished q unit captured req) (h' : Finished q unit captured req') : req.Same req' where
  method_eq := h.method_eq.trans h'.method_eq.symm
  requestURI_eq := h.requestURI_eq.trans h'.requestURI_eq.symm
  headerMap_eq := h.headerMap_eq.trans h'.headerMap_eq.symm
  content_eq := h.content_eq.trans h'.content_eq.symm

theorem begun_new (q : ClientRequest) : Begun q {} := ⟨Or.inl rfl, Or.inl rfl, Or.inl rfl, rfl⟩

theorem Begun.method_step {req : HttpRequest} (h : Begun q req) :
    assignMethod q.method req.method = assignMethod q.method .UNKNOWN := by
  rcases h.method_eq with heq | heq
  · rw [heq]
  · rw [heq, assignMethod_assignMethod]

theorem Begun.headerMap_step {req : HttpRequest} (h : Begun q req) :
    sent q.headers req.headerMap = sent q.headers fun _ => none := by
  rcases h.headerMap_eq with heq | heq
  · rw [heq]
  · rw [heq, sent_sent]

/-- The length that is reported once the headers are set. -/
theorem assignReported_sent (q : ClientRequest) {reported : ℕ} (h : reported = 0 ∨ reported = q.reported) :
    assignReported (sent q.headers fun _ => none) reported = q.reported := by
  unfold assignReported
  by_cases hex : ∃ h ∈ q.headers, h.key = ascii "content-length"
  · obtain ⟨value, hvalue, hatoi⟩ := sent_told q.length_told hex fun _ => none
    rw [hvalue, ClientRequest.reported, ← hatoi]
  · have hkeys : ∀ h ∈ q.headers, h.key ≠ ascii "content-length" := fun h hh heq => hex ⟨h, hh, heq⟩
    have hzero : q.reported = 0 := by
      unfold ClientRequest.reported
      rw [q.body_told hkeys, List.length_nil, Nat.zero_min]
      rfl
    rw [sent_of_key_ne hkeys]
    rcases h with h | h
    · exact h.trans hzero.symm
    · exact h

theorem Begun.assignReported_eq {req : HttpRequest} (h : Begun q req) :
    assignReported req.headerMap req.reportedContentLength = 0 ∨
      assignReported req.headerMap req.reportedContentLength = q.reported := by
  rcases h.headerMap_eq with heq | heq
  · rw [heq]
    exact h.reported_eq
  · rw [heq]
    exact Or.inr (assignReported_sent q h.reported_eq)

/-- The parts of a request in which its line is there and matches. -/
structure Lined (q : ClientRequest) (k : ℕ) (captured : Bytes × Bytes × Bytes) : Prop where
  line_le : q.requestLine.length ≤ k
  match_eq : reRequestLine (getAsString (q.raw.take k) 0 q.requestLine.length) = some captured

theorem Lined.captured_method {k : ℕ} {captured : Bytes × Bytes × Bytes} (h : Lined q k captured) :
    captured.1 = q.method := by
  have hmatch := h.match_eq
  obtain ⟨j, hj⟩ := getAsString_zero (q.raw.take k) q.requestLine.length
  rw [hj, List.take_take] at hmatch
  exact q.reRequestLine_method hmatch

theorem parseLine_of_match {req : HttpRequest} {firstLine : Bytes} {captured : Bytes × Bytes × Bytes}
    (h : reRequestLine firstLine = some captured) : req.parseLine firstLine = .ok { req with
      method := assignMethod captured.1 req.method, requestURI := captured.2.1,
      protocolVersion := captured.2.2 } := by
  unfold parseLine
  rw [h]

theorem parseLine_of_none {firstLine : Bytes} (h : reRequestLine firstLine = none) (req : HttpRequest) :
    ∃ fault, req.parseLine firstLine = .error fault := by
  unfold parseLine
  rw [h]
  exact ⟨_, rfl⟩

theorem parseUnit_of_none {unit : Bytes} (h : Framing.firstFrom crLf 0 unit = none) (req : HttpRequest) :
    ∃ fault, req.parseUnit unit = .error fault := by
  unfold parseUnit
  rw [h]
  exact ⟨_, rfl⟩

theorem parseUnit_of_found {req : HttpRequest} {unit : Bytes} {offset : ℕ}
    (h : Framing.firstFrom crLf 0 unit = some offset) : req.parseUnit unit =
      (req.parseLine (getAsString unit 0 (offset + 2))).map fun req => req.parseRest unit (offset + 2) := by
  unfold parseUnit
  rw [h]

/-- `parse` of a part in which the line is there and matches. -/
theorem parseUnit_of_lined {k : ℕ} {captured : Bytes × Bytes × Bytes} (h : Lined q k captured) (req : HttpRequest) :
    req.parseUnit (q.raw.take k) = .ok (HttpRequest.parseRest { req with
      method := assignMethod q.method req.method, requestURI := captured.2.1, protocolVersion := captured.2.2 }
      (q.raw.take k) q.requestLine.length) := by
  have hlength := q.length_requestLine
  have hline := h.line_le
  have hfind := Framing.firstFrom_take_some (k := k) crLf_ne_nil q.firstFrom_crLf (by rw [length_crLf]; omega)
  rw [parseUnit_of_found hfind, ← hlength, parseLine_of_match h.match_eq, h.captured_method, Except.map]

theorem parseRest_of_error {req : HttpRequest} {unit : Bytes} {firstLineLen : ℕ} {m : HeaderMap} {fault : Fault}
    (h : parseHeaders unit req.headerMap firstLineLen = (m, .error fault)) : req.parseRest unit firstLineLen =
      { req with
        headerMap := m, reportedContentLength := assignReported m req.reportedContentLength, gotHeaders := false,
        isComplete := false } := by
  unfold parseRest
  rw [h]

theorem parseRest_of_ok {req : HttpRequest} {unit : Bytes} {firstLineLen headerLen : ℕ} {m : HeaderMap}
    (h : parseHeaders unit req.headerMap firstLineLen = (m, .ok headerLen)) : req.parseRest unit firstLineLen =
      parseContent { req with
        headerMap := m, reportedContentLength := assignReported m req.reportedContentLength } unit headerLen := by
  unfold parseRest
  rw [h]

/-- What `parse` makes of a part of the request. -/
structure Parsed (q : ClientRequest) (k : ℕ) (captured : Bytes × Bytes × Bytes) (req : HttpRequest) : Prop where
  waits : k < q.headerEnd + q.reported → req.isComplete = false ∧ Begun q req
  completes : q.headerEnd + q.reported ≤ k → req.isComplete = true ∧ Finished q (q.raw.take k) captured req

/-- **The part of `parse` behind the request line.** -/
theorem Begun.parseRest_take {req : HttpRequest} (h : Begun q req)
    (hmethod : req.method = assignMethod q.method .UNKNOWN) {captured : Bytes × Bytes × Bytes}
    (hURI : req.requestURI = captured.2.1) (hne : q.headers ≠ []) (hlen : FitsInt q.headerSection.length) {k : ℕ}
    (hk : k ≤ q.raw.length) :
    Parsed q k captured (req.parseRest (q.raw.take k) q.requestLine.length) ∧
      (req.parseRest (q.raw.take k) q.requestLine.length).rawReq = req.rawReq := by
  by_cases hshort : k < q.headerEnd
  · obtain ⟨fault, hfault⟩ := q.parseHeaders_short hshort req.headerMap
    rw [parseRest_of_error hfault]
    refine ⟨⟨fun _ => ⟨rfl, ⟨h.method_eq, h.headerMap_eq, h.assignReported_eq, h.content_eq⟩⟩, fun hle => ?_⟩, rfl⟩
    omega
  · have hok := q.parseHeaders_take hne hlen (Nat.le_of_not_lt hshort) req.headerMap
    rw [h.headerMap_step] at hok
    have hreported := assignReported_sent q h.reported_eq
    rw [parseRest_of_ok hok]
    generalize assignReported (sent q.headers fun _ => none) req.reportedContentLength = reported at hreported ⊢
    unfold parseContent
    by_cases hzero : reported = 0
    · rw [if_pos hzero]
      refine ⟨⟨fun hlt => ?_, fun _ => ⟨rfl, ⟨hmethod, hURI, rfl, ?_⟩⟩⟩, rfl⟩
      · omega
      · rw [if_pos (hreported.symm.trans hzero)]
        exact h.content_eq
    · rw [if_neg hzero, List.length_take_of_le hk]
      by_cases hfull : reported ≤ k - q.headerEnd
      · rw [if_pos hfull]
        refine ⟨⟨fun hlt => ?_, fun _ => ⟨rfl, ⟨hmethod, hURI, rfl, ?_⟩⟩⟩, rfl⟩
        · omega
        · rw [if_neg (hreported ▸ hzero)]
      · rw [if_neg hfull]
        refine ⟨⟨fun _ => ⟨rfl, ⟨h.method_eq, Or.inr rfl, Or.inr hreported, h.content_eq⟩⟩, fun hle => ?_⟩, rfl⟩
        omega

/-- **`parse` of a part of a request.** -/
theorem Begun.parseUnit_take {req : HttpRequest} (h : Begun q req) {k : ℕ} {captured : Bytes × Bytes × Bytes}
    (hlined : Lined q k captured) (hne : q.headers ≠ []) (hlen : FitsInt q.headerSection.length)
    (hk : k ≤ q.raw.length) : ∃ req', req.parseUnit (q.raw.take k) = .ok req' ∧ req'.rawReq = req.rawReq ∧
      Parsed q k captured req' := by
  rw [parseUnit_of_lined hlined]
  have hbegun : Begun q { req with
      method := assignMethod q.method req.method, requestURI := captured.2.1, protocolVersion := captured.2.2 } :=
    ⟨Or.inr h.method_step, h.headerMap_eq, h.reported_eq, h.content_eq⟩
  obtain ⟨hparsed, hraw⟩ := hbegun.parseRest_take h.method_step rfl hne hlen hk
  exact ⟨_, rfl, hraw, hparsed⟩

/-- A request after octets of the client's request none of which were discarded. -/
structure After (q : ClientRequest) (octets : Bytes) (req : HttpRequest) : Prop where
  begun : Begun q req
  rawReq_eq : (req.rawReq = none ∧ octets = []) ∨ req.rawReq = some ⟨octets, []⟩

theorem after_new (q : ClientRequest) : After q [] {} := ⟨begun_new q, Or.inl ⟨rfl, rfl⟩⟩

theorem After.received_eq {octets : Bytes} {req : HttpRequest} (h : After q octets req) : req.received = octets := by
  unfold received
  rcases h.rawReq_eq with ⟨hnone, rfl⟩ | hsome
  · rw [hnone]
  · rw [hsome]
    simp only [Chain.flatten, List.flatten_nil, List.append_nil]

/-- `parse` of octets that are added. -/
theorem After.parse_addData {octets : Bytes} {req : HttpRequest} (h : After q octets req) (buf : Bytes) :
    ∃ req', Begun q req' ∧ req'.rawReq = some ⟨octets ++ buf, []⟩ ∧
      (req.addData buf).parse = req'.parseUnit (octets ++ buf) := by
  refine ⟨{ req with rawReq := some ⟨octets ++ buf, []⟩ },
    ⟨h.begun.method_eq, h.begun.headerMap_eq, h.begun.reported_eq, h.begun.content_eq⟩, rfl, ?_⟩
  unfold parse addData
  rcases h.rawReq_eq with ⟨hnone, rfl⟩ | hsome
  · rw [hnone]
    simp only [Chain.flatten, List.flatten_nil, List.append_nil, List.nil_append]
  · rw [hsome]
    simp only [Chain.flatten, List.flatten_cons, List.flatten_nil, List.append_nil]

theorem handleInput_of_error {req : HttpRequest} {buf : Bytes} {fault : Fault}
    (h : (req.addData buf).parse = .error fault) : req.handleInput buf = ((req.addData buf).clear, none) := by
  unfold handleInput
  simp only [h]

theorem handleInput_of_ok {req req' : HttpRequest} {buf : Bytes} (h : (req.addData buf).parse = .ok req') :
    req.handleInput buf = if req'.isComplete then (req'.clear, some req') else (req', none) := by
  unfold handleInput
  simp only [h]

/-- **One chunk more of a request.** -/
theorem After.handleInput_take {octets : Bytes} {req : HttpRequest} (h : After q octets req) {buf : Bytes} {k : ℕ}
    (htake : octets ++ buf = q.raw.take k) (hk : k ≤ q.raw.length) {captured : Bytes × Bytes × Bytes}
    (hlined : Lined q k captured) (hne : q.headers ≠ []) (hlen : FitsInt q.headerSection.length) :
    (k < q.headerEnd + q.reported →
        (req.handleInput buf).2 = none ∧ After q (octets ++ buf) (req.handleInput buf).1) ∧
      (q.headerEnd + q.reported ≤ k → ∃ done, (req.handleInput buf).2 = some done ∧
        done.received = octets ++ buf ∧ Finished q (octets ++ buf) captured done) := by
  obtain ⟨req', hbegun, hraw', hparse⟩ := h.parse_addData buf
  rw [htake] at hparse
  obtain ⟨done, hok, hraw, hparsed⟩ := hbegun.parseUnit_take hlined hne hlen hk
  rw [handleInput_of_ok (hparse.trans hok), htake]
  rw [hraw', htake] at hraw
  constructor
  · intro hlt
    obtain ⟨hwaits, hdone⟩ := hparsed.waits hlt
    rw [hwaits, if_neg Bool.false_ne_true]
    exact ⟨rfl, hdone, Or.inr hraw⟩
  · intro hle
    obtain ⟨hcomplete, hfinished⟩ := hparsed.completes hle
    rw [hcomplete, if_pos rfl]
    refine ⟨done, rfl, ?_, hfinished⟩
    unfold received
    rw [hraw]
    simp only [Chain.flatten, List.flatten_nil, List.append_nil]

/-- The request line is there and matches where `parse` does not throw. -/
theorem lined_of_parseUnit {req done : HttpRequest} {k : ℕ} (h : req.parseUnit (q.raw.take k) = .ok done) :
    ∃ captured, Lined q k captured := by
  have hline := q.length_requestLine
  by_cases hle : q.requestLine.length ≤ k
  · have hfind := Framing.firstFrom_take_some (k := k) crLf_ne_nil q.firstFrom_crLf (by rw [length_crLf]; omega)
    cases hmatch : reRequestLine (getAsString (q.raw.take k) 0 q.requestLine.length) with
    | some captured => exact ⟨captured, hle, hmatch⟩
    | none =>
      obtain ⟨fault, hfault⟩ := parseLine_of_none hmatch req
      rw [parseUnit_of_found hfind, ← hline, hfault] at h
      cases h
  · have hfind := Framing.firstFrom_take_none (k := k) crLf_ne_nil q.firstFrom_crLf (by rw [length_crLf]; omega)
    obtain ⟨fault, hfault⟩ := parseUnit_of_none hfind req
    rw [hfault] at h
    cases h

/-- Where octets are kept, the request line matches. -/
theorem After.lined_of_received {octets : Bytes} {req : HttpRequest} (h : After q octets req) {buf : Bytes} {k : ℕ}
    (htake : octets ++ buf = q.raw.take k) (hreceived : (req.handleInput buf).1.received ≠ []) :
    ∃ captured, Lined q k captured := by
  obtain ⟨req', -, -, hparse⟩ := h.parse_addData buf
  rw [htake] at hparse
  cases hres : req'.parseUnit (q.raw.take k) with
  | ok done => exact lined_of_parseUnit hres
  | error fault =>
    rw [handleInput_of_error (hparse.trans hres)] at hreceived
    exact absurd rfl hreceived

theorem exists_headers_of_complete {req : HttpRequest} {unit : Bytes} {firstLineLen : ℕ}
    (h : (req.parseRest unit firstLineLen).isComplete = true) :
    ∃ m headerLen, parseHeaders unit req.headerMap firstLineLen = (m, .ok headerLen) := by
  cases hres : parseHeaders unit req.headerMap firstLineLen with
  | mk m headerLen =>
    cases headerLen with
    | ok headerLen => exact ⟨m, headerLen, rfl⟩
    | error fault =>
      rw [parseRest_of_error hres] at h
      cases h

/-- **What is needed for the whole request in one chunk.** -/
theorem needed_of_whole {whole : HttpRequest} (h : (handleInput {} q.raw).2 = some whole) :
    (∃ captured, Lined q q.raw.length captured) ∧ q.headers ≠ [] ∧ FitsInt q.headerSection.length ∧
      q.reported ≤ q.body.length := by
  have htake : [] ++ q.raw = q.raw.take q.raw.length := by rw [List.nil_append, List.take_length]
  obtain ⟨req', hbegun, -, hparse⟩ := (after_new q).parse_addData q.raw
  rw [htake] at hparse
  cases hres : req'.parseUnit (q.raw.take q.raw.length) with
  | error fault =>
    rw [handleInput_of_error (hparse.trans hres)] at h
    cases h
  | ok done =>
    rw [handleInput_of_ok (hparse.trans hres)] at h
    have hcomplete : done.isComplete = true := by
      by_contra hwaits
      rw [if_neg hwaits] at h
      cases h
    obtain ⟨captured, hlined⟩ := lined_of_parseUnit hres
    have hrest := hres
    rw [parseUnit_of_lined hlined] at hrest
    have hheaders := hcomplete
    rw [← Except.ok.inj hrest, List.take_length] at hheaders
    obtain ⟨m, headerLen, hheaders⟩ := exists_headers_of_complete hheaders
    obtain ⟨hne, hlen⟩ := q.parseHeaders_raw hheaders
    refine ⟨⟨captured, hlined⟩, hne, hlen, ?_⟩
    obtain ⟨done', hdone', -, hparsed⟩ := hbegun.parseUnit_take hlined hne hlen (Nat.le_refl _)
    obtain rfl := Except.ok.inj (hres.symm.trans hdone')
    by_contra hreported
    have hlength := q.length_raw
    have hwaits := (hparsed.waits (by omega)).1
    rw [hcomplete] at hwaits
    cases hwaits

/-! ## All chunks -/

/-- The octets that are there after a chunk. -/
theorem take_of_split {chunks : List Bytes} (hraw : chunks.flatten = q.raw) {front rest : List Bytes} {buf : Bytes}
    (hsplit : chunks = front ++ buf :: rest) : front.flatten ++ buf = q.raw.take (front.flatten ++ buf).length ∧
      (front.flatten ++ buf).length ≤ q.raw.length := by
  have heq : q.raw = (front.flatten ++ buf) ++ rest.flatten := by
    rw [← hraw, hsplit, List.flatten_append, List.flatten_cons, List.append_assoc]
  rw [heq, List.take_left]
  refine ⟨rfl, ?_⟩
  simp only [List.length_append]
  omega

/-- **The chunks before the last one**, if after each of them the request line matches and the request waits. -/
theorem after_feed {chunks : List Bytes} (hraw : chunks.flatten = q.raw) (hne : q.headers ≠ [])
    (hlen : FitsInt q.headerSection.length)
    (hstep : ∀ front buf rest, chunks = front ++ buf :: rest → rest ≠ [] → After q front.flatten (feed {} front) →
      (∃ captured, Lined q (front.flatten ++ buf).length captured) ∧
        (front.flatten ++ buf).length < q.headerEnd + q.reported)
    (front : List Bytes) : ∀ rest, chunks = front ++ rest → rest ≠ [] → After q front.flatten (feed {} front) := by
  induction front using List.reverseRecOn with
  | nil =>
    intro _ _ _
    exact after_new q
  | append_singleton front buf ih =>
    intro rest hsplit hrest
    rw [List.append_assoc, List.singleton_append] at hsplit
    have hafter := ih (buf :: rest) hsplit (List.cons_ne_nil _ _)
    obtain ⟨⟨captured, hlined⟩, hlt⟩ := hstep front buf rest hsplit hrest hafter
    obtain ⟨htake, hk⟩ := take_of_split hraw hsplit
    have hnext := ((hafter.handleInput_take htake hk hlined hne hlen).1 hlt).2
    unfold feed at hnext ⊢
    rw [List.foldl_append, List.flatten_append, List.flatten_singleton]
    exact hnext

end HttpRequest

/-- The first chunk is a part of what is there after each chunk. -/
theorem first_le_of_split {first : Bytes} {rest₀ front rest : List Bytes} {buf : Bytes}
    (hsplit : first :: rest₀ = front ++ buf :: rest) : first.length ≤ (front.flatten ++ buf).length := by
  cases front with
  | nil =>
    obtain ⟨rfl, -⟩ := List.cons.inj hsplit
    rw [List.flatten_nil, List.nil_append]
  | cons first' front =>
    obtain ⟨rfl, -⟩ := List.cons.inj hsplit
    simp only [List.flatten_cons, List.length_append]
    exact Nat.le_trans (Nat.le_add_right _ _) (Nat.le_add_right _ _)

open HttpRequest

variable {q : ClientRequest} {chunks : List Bytes}

/-- The chunks in which a request passes are understood. -/
theorem Passes.understood (h : Passes q chunks) (hraw : chunks.flatten = q.raw) : Understood chunks := by
  have hlined : ∀ front buf rest, chunks = front ++ buf :: rest →
      ∃ captured, Lined q (front.flatten ++ buf).length captured := by
    intro front buf rest hsplit
    obtain ⟨first, rest₀, hfirst, hle⟩ := h.line
    have hmatch := h.matches_line front buf rest hsplit
    rw [(take_of_split hraw hsplit).1] at hmatch
    obtain ⟨captured, hcaptured⟩ := Option.isSome_iff_exists.1 hmatch
    exact ⟨captured, Nat.le_trans hle (first_le_of_split (hfirst.symm.trans hsplit)), hcaptured⟩
  have hearly : ∀ front buf rest, chunks = front ++ buf :: rest → rest ≠ [] →
      (front.flatten ++ buf).length < q.headerEnd + q.reported := by
    intro front buf rest hsplit hrest
    obtain ⟨buf', rest', rfl⟩ := List.exists_cons_of_ne_nil hrest
    have hlt := h.early (front ++ [buf]) buf' rest' (by rw [hsplit, List.append_assoc, List.singleton_append])
    rwa [List.flatten_append, List.flatten_singleton] at hlt
  intro front buf rest hsplit
  have hafter := after_feed hraw h.headers h.headerLength
    (fun front buf rest hsplit hrest _ => ⟨hlined front buf rest hsplit, hearly front buf rest hsplit hrest⟩)
    front (buf :: rest) hsplit (List.cons_ne_nil _ _)
  obtain ⟨htake, hk⟩ := take_of_split hraw hsplit
  obtain ⟨captured, hcaptured⟩ := hlined front buf rest hsplit
  obtain ⟨hwaits, hcompletes⟩ := hafter.handleInput_take htake hk hcaptured h.headers h.headerLength
  constructor
  · intro hrest
    obtain ⟨hnone, hnext⟩ := hwaits (hearly front buf rest hsplit hrest)
    exact ⟨hnone, hnext.received_eq⟩
  · rintro rfl
    have hall : front.flatten ++ buf = chunks.flatten := by
      rw [hsplit, List.flatten_append, List.flatten_singleton]
    have hle : q.headerEnd + q.reported ≤ q.raw.length := by
      rw [q.length_raw]
      exact Nat.add_le_add_left h.reported_le _
    rw [hall, hraw] at hcompletes hcaptured
    obtain ⟨done, hdone, hreceived, hfinished⟩ := hcompletes hle
    have htakeall : [] ++ q.raw = q.raw.take q.raw.length := by rw [List.nil_append, List.take_length]
    obtain ⟨whole, hwhole, -, hfinished'⟩ := ((after_new q).handleInput_take htakeall (Nat.le_refl _) hcaptured
      h.headers h.headerLength).2 hle
    rw [hraw]
    exact ⟨done, whole, hdone, hwhole, hreceived, hfinished.same hfinished'⟩

/-- Chunks that are understood pass. -/
theorem Understood.passes (h : Understood chunks) (hchunks : ∀ b ∈ chunks, b ≠ []) (hraw : chunks.flatten = q.raw) :
    Passes q chunks := by
  have hline := q.length_requestLine
  have hlength := q.length_raw
  have hend : q.headerEnd = q.requestLine.length + q.headerSection.length := rfl
  have hne : chunks ≠ [] := by
    rintro rfl
    have hnil : q.raw.length = 0 := by rw [← hraw, List.flatten_nil, List.length_nil]
    omega
  -- the last chunk: what is handed on is what the whole request makes
  obtain ⟨front, buf, hlast⟩ := (List.eq_nil_or_concat' chunks).resolve_left hne
  obtain ⟨done, whole, -, hwhole, -⟩ := (h front buf [] hlast).2 rfl
  rw [hraw] at hwhole
  obtain ⟨⟨captured, hwholeline⟩, hheaders, hlen, hreported⟩ := needed_of_whole hwhole
  -- the chunks before: the octets are kept, and nothing is handed on
  have hstep : ∀ front buf rest, chunks = front ++ buf :: rest → rest ≠ [] → After q front.flatten (feed {} front) →
      (∃ captured, Lined q (front.flatten ++ buf).length captured) ∧
        (front.flatten ++ buf).length < q.headerEnd + q.reported := by
    intro front buf rest hsplit hrest hafter
    obtain ⟨hnone, hreceived⟩ := (h front buf rest hsplit).1 hrest
    obtain ⟨htake, hk⟩ := take_of_split hraw hsplit
    have hbuf : buf ≠ [] := hchunks buf (hsplit ▸ List.mem_append_right front List.mem_cons_self)
    obtain ⟨captured, hlined⟩ := hafter.lined_of_received htake
      (by rw [hreceived]; exact List.append_ne_nil_of_right_ne_nil _ hbuf)
    refine ⟨⟨captured, hlined⟩, ?_⟩
    by_contra hle
    obtain ⟨done, hdone, -⟩ := (hafter.handleInput_take htake hk hlined hheaders hlen).2 (Nat.le_of_not_lt hle)
    rw [hnone] at hdone
    cases hdone
  have hafter := after_feed hraw hheaders hlen hstep
  have hfact : ∀ front buf rest, chunks = front ++ buf :: rest → rest ≠ [] →
      (∃ captured, Lined q (front.flatten ++ buf).length captured) ∧
        (front.flatten ++ buf).length < q.headerEnd + q.reported := fun front buf rest hsplit hrest =>
    hstep front buf rest hsplit hrest (hafter front (buf :: rest) hsplit (List.cons_ne_nil _ _))
  have hlined : ∀ front buf rest, chunks = front ++ buf :: rest →
      ∃ captured, Lined q (front.flatten ++ buf).length captured := by
    intro front buf rest hsplit
    by_cases hrest : rest = []
    · have hall : front.flatten ++ buf = q.raw := by
        rw [← hraw, hsplit, hrest, List.flatten_append, List.flatten_singleton]
      rw [hall]
      exact ⟨captured, hwholeline⟩
    · exact (hfact front buf rest hsplit hrest).1
  refine ⟨?_, ?_, hheaders, hlen, hreported, ?_⟩
  · obtain ⟨first, rest₀, hfirst⟩ := List.exists_cons_of_ne_nil hne
    obtain ⟨captured, hfirstline⟩ := hlined [] first rest₀ hfirst
    exact ⟨first, rest₀, hfirst, hfirstline.line_le⟩
  · intro front buf rest hsplit
    obtain ⟨captured, hcaptured⟩ := hlined front buf rest hsplit
    rw [(take_of_split hraw hsplit).1, hcaptured.match_eq]
    rfl
  · intro front buf rest hsplit
    rcases List.eq_nil_or_concat' front with rfl | ⟨front', b, rfl⟩
    · rw [List.flatten_nil, List.length_nil]
      omega
    · rw [List.append_assoc, List.singleton_append] at hsplit
      rw [List.flatten_append, List.flatten_singleton]
      exact (hfact front' b (buf :: rest) hsplit (List.cons_ne_nil _ _)).2

/-- **A request is understood however it arrives just in chunks in which it passes.** -/
theorem understood_iff_passes (q : ClientRequest) (chunks : List Bytes) (hchunks : ∀ b ∈ chunks, b ≠ [])
    (hraw : chunks.flatten = q.raw) : Understood chunks ↔ Passes q chunks :=
  ⟨fun h => h.passes hchunks hraw, fun h => h.understood hraw⟩

theorem toInt_of_lt {n : ℕ} (h : n < 2147483648) : toInt n = n := by
  unfold toInt
  rw [Int.bmod_def]
  omega

theorem toSize_of_lt {n : ℕ} (h : n < 2147483648) : toSize (toInt (min n 9223372036854775807 : ℕ)) = n := by
  rw [Nat.min_eq_left (by omega), toInt_of_lt h]
  unfold toSize
  omega

/-- **Requests whose lengths are below 2^31**: these pass if the request line matches, there is a header, and the
first chunk holds the request line. -/
theorem passes_iff_of_short (q : ClientRequest) (chunks : List Bytes) (hchunks : ∀ b ∈ chunks, b ≠ [])
    (hraw : chunks.flatten = q.raw) (hline : q.requestLine.length < 2147483648)
    (hsection : q.headerSection.length < 2147483648) (hbody : q.body.length < 2147483648) :
    Passes q chunks ↔ (∀ b ∈ q.method, isCapital b) ∧ q.version.length = 3 ∧ q.headers ≠ [] ∧
      ∃ first rest, chunks = first :: rest ∧ q.requestLine.length ≤ first.length := by
  have hreported : q.reported = q.body.length := toSize_of_lt hbody
  have hcut : ∀ k, q.requestLine.length ≤ k →
      getAsString (q.raw.take k) 0 q.requestLine.length = q.requestLine := by
    intro k hk
    rw [getAsString_of_toInt_eq (toInt_of_lt hline), List.drop_zero, List.take_take, Nat.min_eq_left hk]
    unfold ClientRequest.raw
    exact List.take_left
  have hmatch : ∀ {front buf rest}, (∃ first rest, chunks = first :: rest ∧ q.requestLine.length ≤ first.length) →
      chunks = front ++ buf :: rest →
      ((reRequestLine (getAsString (front.flatten ++ buf) 0 q.requestLine.length)).isSome ↔
        (∀ b ∈ q.method, isCapital b) ∧ q.version.length = 3) := by
    rintro front buf rest ⟨first, rest₀, hfirst, hle⟩ hsplit
    rw [(take_of_split hraw hsplit).1, hcut _ (Nat.le_trans hle (first_le_of_split (hfirst.symm.trans hsplit))),
      q.isSome_reRequestLine]
  constructor
  · intro h
    obtain ⟨first, rest, hfirst, hle⟩ := h.line
    obtain ⟨hcapitals, hversion⟩ := (hmatch h.line hfirst).1 (h.matches_line [] first rest hfirst)
    exact ⟨hcapitals, hversion, h.headers, h.line⟩
  · rintro ⟨hcapitals, hversion, hheaders, hfirst⟩
    refine ⟨hfirst, fun front buf rest hsplit => (hmatch hfirst hsplit).2 ⟨hcapitals, hversion⟩, hheaders,
      Or.inl hsection, Nat.le_of_eq hreported, fun front buf rest hsplit => ?_⟩
    have hbuf : buf ≠ [] := hchunks buf (hsplit ▸ List.mem_append_right front List.mem_cons_self)
    have hpos := List.length_pos_iff.2 hbuf
    have hle := (take_of_split hraw hsplit).2
    rw [List.length_append, q.length_raw] at hle
    omega

/-- A `POST` of one octet. -/
def oneOctet : ClientRequest where
  method := ascii "POST"
  uri := ascii "/"
  major := ascii "1"
  minor := ascii "1"
  headers := [⟨ascii "Content-Length", ascii "1", by decide +kernel, by decide +kernel, by decide +kernel⟩]
  body := [120]
  method_token := by decide +kernel
  uri_token := by decide +kernel
  version_number := by decide +kernel
  length_told := fun h hh _ => by
    obtain rfl := List.mem_singleton.1 hh
    exact ⟨[], ascii "1", [], by decide +kernel, by decide +kernel, rfl, rfl⟩
  body_told := fun h => absurd rfl (h _ List.mem_cons_self)

/-- It is understood in three chunks, the second of which ends between the octets of a line end. -/
theorem understood_three_chunks :
    Understood [oneOctet.raw.take 20, (oneOctet.raw.take 34).drop 20, oneOctet.raw.drop 34] :=
  (understood_iff_passes oneOctet _ (by decide +kernel) (by decide +kernel)).2
    ((passes_iff_of_short oneOctet _ (by decide +kernel) (by decide +kernel) (by decide +kernel) (by decide +kernel)
      (by decide +kernel)).2
      ⟨by decide +kernel, by decide +kernel, List.cons_ne_nil _ _, _, _, rfl, by decide +kernel⟩)

/-- A `GET` without headers. -/
def noHeader : ClientRequest where
  method := ascii "GET"
  uri := ascii "/"
  major := ascii "1"
  minor := ascii "1"
  headers := []
  body := []
  method_token := by decide +kernel
  uri_token := by decide +kernel
  version_number := by decide +kernel
  length_told := fun _ hh => absurd hh List.not_mem_nil
  body_told := fun _ => rfl

/-- **A request without headers is never handed on**, and of one whose first chunk ends in the request line the octets
are discarded. -/
theorem requests_lost : ¬ Understood [noHeader.raw] ∧ ¬ Understood [oneOctet.raw.take 8, oneOctet.raw.drop 8] := by
  constructor
  · intro h
    obtain ⟨req, _, hreq, -⟩ := (h [] noHeader.raw [] rfl).2 rfl
    have hnone : (HttpRequest.handleInput {} noHeader.raw).2.isNone = true := by decide +kernel
    rw [show (feed {} []).handleInput noHeader.raw = HttpRequest.handleInput {} noHeader.raw from rfl] at hreq
    rw [hreq] at hnone
    cases hnone
  · intro h
    obtain ⟨-, hreceived⟩ := (h [] (oneOctet.raw.take 8) [oneOctet.raw.drop 8] rfl).1 (List.cons_ne_nil _ _)
    have hnil : (HttpRequest.handleInput {} (oneOctet.raw.take 8)).1.received = [] := by decide +kernel
    have hkept : [] = oneOctet.raw.take 8 := hnil.symm.trans hreceived
    exact absurd hkept (by decide +kernel)

end ChannelEmulator.Http
