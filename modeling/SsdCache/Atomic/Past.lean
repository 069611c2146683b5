import SsdCache.Atomic.Machine

/-!
# What a history says about the past

`Since A B h`: some step of `h` matches `A`, and no later one matches `B`. A pattern
may look at the history before its step. With these, the ghost variables of a proof
(what is owed, what is under way) are functions of the history.
-/

namespace SsdCache.Atomic

variable {S : Sig} {ε W T C : Type}

/-- A property of a step, its world and the history before it. -/
abbrev Pattern (S : Sig) (ε W T C : Type) : Type := Hist S ε W T C → W → Label S ε T C → Prop

/-- `A` happened, and `B` did not happen after it. -/
def Since (A B : Pattern S ε W T C) : Hist S ε W T C → Prop
  | [] => False
  | (w, l) :: h => A h w l ∨ (¬ B h w l ∧ Since A B h)

/-- `A` happened. -/
def Once (A : Pattern S ε W T C) : Hist S ε W T C → Prop := Since A fun _ _ _ => False

variable {A B : Pattern S ε W T C}

instance Since.decidable [∀ h w l, Decidable (A h w l)] [∀ h w l, Decidable (B h w l)] :
    (h : Hist S ε W T C) → Decidable (Since A B h)
  | [] => .isFalse id
  | (w, l) :: h =>
    have := Since.decidable h
    inferInstanceAs (Decidable (A h w l ∨ (¬ B h w l ∧ Since A B h)))

instance Once.decidable [∀ h w l, Decidable (A h w l)] (h : Hist S ε W T C) :
    Decidable (Once A h) := inferInstanceAs (Decidable (Since A _ h))

theorem since_cons {h : Hist S ε W T C} {w : W} {l : Label S ε T C} :
    Since A B ((w, l) :: h) ↔ A h w l ∨ (¬ B h w l ∧ Since A B h) := Iff.rfl

theorem not_since_nil : ¬ Since A B [] := id

/-- What is said of more steps, and taken back by fewer, holds more often. -/
theorem since_mono {A' B' : Pattern S ε W T C} (hA : ∀ {h w l}, A h w l → A' h w l)
    (hB : ∀ {h w l}, B' h w l → B h w l) : ∀ {h}, Since A B h → Since A' B' h
  | (_, _) :: _, .inl ha => .inl (hA ha)
  | (_, _) :: _, .inr ⟨hb, hs⟩ => .inr ⟨fun hb' => hb (hB hb'), since_mono hA hB hs⟩

/-- A step that matches neither pattern changes nothing. -/
theorem since_frame {h : Hist S ε W T C} {w : W} {l : Label S ε T C} (hA : ¬ A h w l)
    (hB : ¬ B h w l) : Since A B ((w, l) :: h) ↔ Since A B h := by
  simp only [since_cons, hA, hB, not_false_eq_true, true_and, false_or]

end SsdCache.Atomic
