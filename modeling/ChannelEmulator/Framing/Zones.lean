import Mathlib.Data.List.Basic
import Mathlib.Tactic.Common

/-!
# Items carried in zones

Items (packets) are put one behind the other into zones. A zone starts with the rest of an
item begun in earlier zones (`lead`), goes on with the items that lie in it (`whole`), and
ends with the start of one that goes on in the next zone (`trail`).

* `Carries a zs items b`: **the zones `zs` carry `items`**, where `a` is what earlier zones
  hold of the first item and `b` what `zs` hold of an item that goes on behind them.
* `Carries.append`, `Carries.split`: runs of zones compose.
* `Carries.flatten_eq`: the zones hold the elements of the items.
* `Carries.put`, `Carries.begin`: a last zone grows by an item, or by the start of one.
* `Carries.exists_rest`: an item that is open is completed later.
-/

namespace Framing

variable {α : Type*}

structure Zone (α : Type*) where
  lead : List α := []
  whole : List (List α) := []
  trail : List α := []
deriving DecidableEq, Repr

namespace Zone

/-- The elements of a zone. -/
def flat (z : Zone α) : List α := z.lead ++ (z.whole.flatten ++ z.trail)

/-- Where the first item starts that starts in the zone. -/
def header (z : Zone α) : Option ℕ :=
  if z.whole = [] ∧ z.trail = [] then none else some z.lead.length

theorem header_le (z : Zone α) {i : ℕ} (h : z.header = some i) :
    i = z.lead.length ∧ i ≤ z.flat.length := by
  rw [header] at h
  split at h
  · exact absurd h (by simp)
  · obtain rfl := Option.some.inj h
    exact ⟨rfl, by simp [flat]⟩

end Zone

/-- The zones carry the items. -/
inductive Carries : List α → List (Zone α) → List (List α) → List α → Prop
  | nil (a : List α) : Carries a [] [] a
  | mid {a lead : List α} {zs : List (Zone α)} {items : List (List α)} {b : List α}
      (ha : a ≠ []) (hl : lead ≠ []) (h : Carries (a ++ lead) zs items b) :
      Carries a (⟨lead, [], []⟩ :: zs) items b
  | last {a lead : List α} {w : List (List α)} {trail : List α} {zs : List (Zone α)}
      {items : List (List α)} {b : List α}
      (ha : a ≠ []) (hl : lead ≠ []) (h : Carries trail zs items b) :
      Carries a (⟨lead, w, trail⟩ :: zs) ((a ++ lead) :: (w ++ items)) b
  | first {w : List (List α)} {trail : List α} {zs : List (Zone α)}
      {items : List (List α)} {b : List α} (h : Carries trail zs items b) :
      Carries [] (⟨[], w, trail⟩ :: zs) (w ++ items) b

namespace Carries

variable {a b c : List α} {zs ws : List (Zone α)} {items items' : List (List α)} {z : Zone α}

theorem append (h₁ : Carries a zs items b) (h₂ : Carries b ws items' c) :
    Carries a (zs ++ ws) (items ++ items') c := by
  induction h₁ with
  | nil => exact h₂
  | mid ha hl _ ih => exact mid ha hl (ih h₂)
  | last ha hl _ ih =>
    rw [List.cons_append, List.cons_append, List.append_assoc]
    exact last ha hl (ih h₂)
  | first _ ih =>
    rw [List.cons_append, List.append_assoc]
    exact first (ih h₂)

theorem split : ∀ {zs : List (Zone α)} {a : List α} {items : List (List α)},
    Carries a (zs ++ ws) items c →
      ∃ b items₁ items₂, Carries a zs items₁ b ∧ Carries b ws items₂ c ∧
        items = items₁ ++ items₂ := by
  intro zs
  induction zs with
  | nil => intro a items h; exact ⟨a, [], items, nil a, h, rfl⟩
  | cons z zs ih =>
    intro a items h
    cases h with
    | mid ha hl h =>
      obtain ⟨b, i₁, i₂, h₁, h₂, rfl⟩ := ih h
      exact ⟨b, i₁, i₂, mid ha hl h₁, h₂, rfl⟩
    | last ha hl h =>
      obtain ⟨b, i₁, i₂, h₁, h₂, rfl⟩ := ih h
      exact ⟨b, _, i₂, last ha hl h₁, h₂, by simp⟩
    | first h =>
      obtain ⟨b, i₁, i₂, h₁, h₂, rfl⟩ := ih h
      exact ⟨b, _, i₂, first h₁, h₂, by simp⟩

/-- The elements of the zones are those of the items. -/
theorem flatten_eq (h : Carries a zs items b) : a ++ zs.flatMap Zone.flat = items.flatten ++ b := by
  induction h with
  | nil => simp
  | mid _ _ _ ih => rw [← ih]; simp [Zone.flat]
  | last _ _ _ ih =>
    simp only [List.flatMap_cons, Zone.flat, List.flatten_cons, List.flatten_append,
      List.append_assoc]
    rw [ih]
  | first _ ih =>
    simp only [List.flatMap_cons, Zone.flat, List.flatten_append, List.append_assoc,
      List.nil_append]
    rw [ih]

/-- What lies in a zone is among the items. -/
theorem whole_mem (h : Carries a zs items b) (hz : z ∈ zs) : ∀ x ∈ z.whole, x ∈ items := by
  induction h with
  | nil => cases hz
  | mid _ _ _ ih =>
    rcases List.mem_cons.1 hz with rfl | hz
    · exact fun x hx => by cases hx
    · exact ih hz
  | last _ _ _ ih =>
    rcases List.mem_cons.1 hz with rfl | hz
    · exact fun x hx => List.mem_cons_of_mem _ (List.mem_append_left _ hx)
    · exact fun x hx => List.mem_cons_of_mem _ (List.mem_append_right _ (ih hz x hx))
  | first _ ih =>
    rcases List.mem_cons.1 hz with rfl | hz
    · exact fun x hx => List.mem_append_left _ hx
    · exact fun x hx => List.mem_append_right _ (ih hz x hx)

/-- The last zone of a run that ends between items. -/
theorem single (h : Carries a [z] items b) (hb : b = []) (ht : z.trail = []) :
    (a = [] ∧ z.lead = [] ∧ items = z.whole) ∨
      (a ≠ [] ∧ z.lead ≠ [] ∧ items = (a ++ z.lead) :: z.whole) := by
  subst hb
  cases h with
  | mid ha hl h =>
    generalize hc : a ++ _ = c at h
    cases h with
    | nil => exact absurd (List.append_eq_nil_iff.1 hc).1 ha
  | last ha hl h =>
    obtain rfl := ht
    cases h with
    | nil => exact Or.inr ⟨ha, hl, by simp⟩
  | first h =>
    obtain rfl := ht
    cases h with
    | nil => exact Or.inl ⟨rfl, rfl, by simp⟩

/-- A zone that an item begins at the end of is open at what it holds of it. -/
theorem single_open {lead trail : List α} {w : List (List α)}
    (h : Carries a [⟨lead, w, trail⟩] items b) (ht : trail ≠ []) : b = trail := by
  cases h with
  | mid => exact absurd rfl ht
  | last _ _ h => cases h; rfl
  | first h => cases h; rfl

/-- A last zone that ends between items takes another item. -/
theorem put (h : Carries a [z] items []) (ht : z.trail = []) (p : List α) :
    Carries a [⟨z.lead, z.whole ++ [p], []⟩] (items ++ [p]) [] := by
  rcases h.single rfl ht with ⟨rfl, hl, rfl⟩ | ⟨ha, hl, rfl⟩
  · rw [hl]
    simpa using first (w := z.whole ++ [p]) (nil ([] : List α))
  · simpa using last (w := z.whole ++ [p]) ha hl (nil ([] : List α))

/-- A last zone that ends between items takes the start of another. -/
theorem begin (h : Carries a [z] items []) (ht : z.trail = []) (t : List α) :
    Carries a [⟨z.lead, z.whole, t⟩] items t := by
  rcases h.single rfl ht with ⟨rfl, hl, rfl⟩ | ⟨ha, hl, rfl⟩
  · rw [hl]
    simpa using first (w := z.whole) (nil t)
  · simpa using last (w := z.whole) ha hl (nil t)

/-- An empty last zone carries nothing. -/
theorem drop_empty (h : Carries a (zs ++ [⟨[], [], []⟩]) items []) : Carries a zs items [] := by
  obtain ⟨b, i₁, i₂, h₁, h₂, rfl⟩ := h.split
  rcases h₂.single rfl rfl with ⟨rfl, -, rfl⟩ | ⟨-, hl, -⟩
  · simpa using h₁
  · exact absurd rfl hl

/-- **An open item is completed**: it is the first of the items carried later. -/
theorem exists_rest (h : Carries a zs items b) (ha : a ≠ []) (hb : b = []) :
    ∃ r rest, r ≠ [] ∧ items = (a ++ r) :: rest := by
  induction h with
  | nil => exact absurd hb ha
  | @mid a lead _ _ _ ha' hl _ ih =>
    obtain ⟨r, rest, hr, rfl⟩ := ih (by simp [ha']) hb
    exact ⟨lead ++ r, rest, by simp [hr], by rw [List.append_assoc]⟩
  | last _ hl _ => exact ⟨_, _, hl, rfl⟩
  | first => exact absurd rfl ha

end Carries

end Framing
