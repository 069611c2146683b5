import SsdCache.Proof.Batch
import SsdCache.Proof.Threads

/-!
# Outlines for one call at a time

When every other party is idle, only the clock moves during an operation: `Ticked`.
`SerialOutline` asks for one invariant that every operation keeps, and makes a
`SeqOutline` of it.
-/

namespace SsdCache

open Atomic

variable {V : Type} {sv : Service V} {menu : Menu V} {c : State V} {t : Party} {o : Operation}

/-- The clock moved forward once. -/
def TickStep (x y : History V × World V) : Prop := tick x.2 y.2 ∧ y.1 = (x.2, .env) :: x.1

/-- Only the clock moved. -/
def Ticked : History V × World V → History V × World V → Prop := Relation.ReflTransGen TickStep

/-- What an operation of `t` may assume and has to keep. -/
def serialContract (sv : Service V) (menu : Menu V) (cond : Condition V)
    (keep : History V × World V → (a : Call) → Except String a.Answer → History V × World V → Prop)
    (t : Party) : Contract calls String (History V × World V) :=
  (system sv menu).contract cond t Ticked keep (fun _ => .refl) Relation.ReflTransGen.trans

variable {cond : Condition V}
variable {keep : History V × World V → (a : Call) → Except String a.Answer → History V × World V → Prop}

/-- An assertion that survives one tick is stable. -/
theorem stable_of_tick {P : History V × World V → Prop}
    (hP : ∀ {h w clock}, w.clock ≤ clock → P (h, w) → P ((w, .env) :: h, { w with clock })) :
    (serialContract sv menu cond keep t).Stable P := by
  intro x y hr
  induction hr with
  | refl => exact id
  | @tail y z _ hs ih =>
    intro hx
    obtain ⟨⟨clock, hle, hw⟩, hh⟩ := hs
    obtain ⟨hz, wz⟩ := z
    cases hw
    cases hh
    exact hP hle (ih hx)

/-- The triple of one call. -/
theorem serial_triple {P : History V × World V → Prop} {a : Call}
    {R : Except String a.Answer → History V × World V → Prop}
    (hP : (serialContract sv menu cond keep t).Stable P)
    (hcall : ∀ {h w r w'}, exec sv w a r w' → cond h w (.act t a r) → P (h, w) →
      keep (h, w) a r ((w, .act t a r) :: h, w') ∧ R r ((w, .act t a r) :: h, w')) :
    (serialContract sv menu cond keep t).Triple P a R := Machine.triple rfl hP hcall

/-- One invariant that every operation keeps, when operations run one at a time. -/
structure SerialOutline (sv : Service V) (menu : Menu V) (cond : Condition V) where
  keep : History V × World V → (a : Call) → Except String a.Answer → History V × World V → Prop
  inv : History V × World V → Prop
  alone : ∀ {t c o}, menu t c o = true → allIdle c = true
  tick : ∀ {h w clock}, w.clock ≤ clock → inv (h, w) → inv ((w, .env) :: h, { w with clock })
  body : ∀ {t h c o}, menu t c o = true → cond h c.world (.call t o) → inv (h, c.world) →
    (o.body sv).Safe (serialContract sv menu cond keep t) (fun _ => inv)
      ((c.world, .call t o) :: h, c.world)

/-- The outline of the machine. -/
def SerialOutline.outline (O : SerialOutline sv menu cond) : SeqOutline (system sv menu) cond where
  contract := serialContract sv menu cond O.keep
  inv := O.inv
  step_eq _ := rfl
  alone hm := allIdle_iff.1 (O.alone hm)
  stable _ := stable_of_tick O.tick
  env he _ := .single ⟨he, rfl⟩
  body := O.body

theorem sequential_cases (h : sequential t c o = true) :
    allIdle c = true ∧
      ((∃ event, t = .events ∧ o = .recordEvent event) ∨ ∃ now, t = .worker ∧ o = .runDueOnce now) := by
  unfold sequential at h
  rw [Bool.and_eq_true] at h
  refine ⟨h.1, ?_⟩
  have hmenu := h.2
  split at hmenu
  · exact .inl ⟨_, rfl, rfl⟩
  · exact .inr ⟨_, rfl, rfl⟩
  · cases hmenu

theorem sequential_idle (h : sequential t c o = true) : allIdle c = true := (sequential_cases h).1

theorem sequential_concurrent (h : sequential t c o = true) : concurrent t c o = true := by
  rcases (sequential_cases h).2 with ⟨event, rfl, rfl⟩ | ⟨now, rfl, rfl⟩
  · rfl
  · rfl

theorem sequentialHost_cases (h : sequentialHost t c o = true) :
    allIdle c = true ∧
      ((∃ event, t = .events ∧ o = .recordEvent event) ∨ (∃ now, t = .worker ∧ o = .runDueOnce now) ∨
        ∃ ignored isDirectory, t = .control ∧ o = .cleanup ignored isDirectory) := by
  unfold sequentialHost at h
  rw [Bool.and_eq_true] at h
  refine ⟨h.1, ?_⟩
  have hmenu := h.2
  split at hmenu
  · exact .inl ⟨_, rfl, rfl⟩
  · exact .inr (.inl ⟨_, rfl, rfl⟩)
  · exact .inr (.inr ⟨_, _, rfl, rfl⟩)
  · cases hmenu

theorem sequentialService_cases (h : sequentialService t c o = true) :
    allIdle c = true ∧
      ((∃ event, t = .events ∧ o = .recordEvent event ∧ event.observedAt = c.world.clock) ∨
        (t = .worker ∧ o = .workerIteration) ∨
        (t = .control ∧ (o = .start ∨ o = .requestStop ∨ o = .joinWorker))) := by
  unfold sequentialService at h
  rw [Bool.and_eq_true] at h
  refine ⟨h.1, ?_⟩
  have hmenu := h.2
  split at hmenu
  · exact .inl ⟨_, rfl, rfl, of_decide_eq_true hmenu⟩
  · exact .inr (.inl ⟨rfl, rfl⟩)
  · exact .inr (.inr ⟨rfl, .inl rfl⟩)
  · exact .inr (.inr ⟨rfl, .inr (.inl rfl)⟩)
  · exact .inr (.inr ⟨rfl, .inr (.inr rfl)⟩)
  · cases hmenu

theorem sequentialService_concurrent (h : sequentialService t c o = true) :
    concurrent t c o = true := by
  rcases (sequentialService_cases h).2 with ⟨event, rfl, rfl, -⟩ | ⟨rfl, rfl⟩ | ⟨rfl, rfl | rfl | rfl⟩
  all_goals rfl

end SsdCache
