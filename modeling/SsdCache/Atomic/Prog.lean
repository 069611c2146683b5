import Mathlib.Logic.Basic
import Mathlib.Tactic.Common

/-!
# Programs made of atomic actions

A thread of a concurrent system is a **program** over a signature of atomic
actions (`Prog`): it returns, throws, or asks one action and goes on with the
answer, which is a value or an exception. `Prog` is a monad, so a program is
written in the shape of the code it models.

`Prog.Safe` is the rely-guarantee judgement: while other threads move the state
along `rely`, every own step meets `keep`, and the program ends in its
postcondition. The rules (`safe_bind`, `safe_perform`, `safe_tryCatch`,
`safe_mono`) take a program apart in the order it runs. `Prog.Ends` is what a program
does when it runs alone.
-/

namespace SsdCache.Atomic

/-- The atomic actions of a system, and the type of each one's answer. -/
structure Sig where
  Act : Type
  Resp : Act → Type

/-- A sequential program over the actions of `S`, with exceptions of type `ε`. -/
inductive Prog (S : Sig) (ε α : Type) : Type
  | ret (v : α)
  | throw (e : ε)
  | call (a : S.Act) (k : Except ε (S.Resp a) → Prog S ε α)

namespace Prog

variable {S : Sig} {ε α β γ : Type}

/-- Run `c`, then `f` on its value; an exception of `c` is the result. -/
def bind : Prog S ε α → (α → Prog S ε β) → Prog S ε β
  | .ret v, f => f v
  | .throw e, _ => .throw e
  | .call a k, f => .call a fun r => (k r).bind f

instance : Monad (Prog S ε) where
  pure := .ret
  bind := bind

theorem bind_assoc {c : Prog S ε α} {f : α → Prog S ε β} {g : β → Prog S ε γ} :
    (c.bind f).bind g = c.bind fun v => (f v).bind g := by
  induction c with
  | ret v => rfl
  | throw e => rfl
  | call a k ih => exact congrArg (Prog.call a) (funext ih)

/-- Ask one action; its exception is thrown. -/
def perform (a : S.Act) : Prog S ε (S.Resp a) :=
  .call a fun
    | .ok v => .ret v
    | .error e => .throw e

/-- Run `c`; on an exception go on with the handler `f`. -/
def tryCatch : Prog S ε α → (ε → Prog S ε α) → Prog S ε α
  | .ret v, _ => .ret v
  | .throw e, f => f e
  | .call a k, f => .call a fun r => (k r).tryCatch f

/-- Run `c` and then `d`, also when `c` throws; an exception of `d` replaces the result. -/
def ensuring : Prog S ε α → Prog S ε Unit → Prog S ε α
  | .ret v, d => d.bind fun _ => .ret v
  | .throw e, d => d.bind fun _ => .throw e
  | .call a k, d => .call a fun r => (k r).ensuring d

/-- The program has ended, by returning or by throwing. -/
def Done : Prog S ε α → Prop
  | .call _ _ => False
  | _ => True

instance (c : Prog S ε α) : Decidable c.Done :=
  match c with
  | .ret _ => .isTrue trivial
  | .throw _ => .isTrue trivial
  | .call _ _ => .isFalse id

@[simp] theorem done_ret (v : α) : (Prog.ret v : Prog S ε α).Done := trivial

@[simp] theorem not_done_call (a : S.Act) (k : Except ε (S.Resp a) → Prog S ε α) :
    ¬ (Prog.call a k).Done := id

end Prog

/-- What one thread may assume of the others (`rely`), how it moves the state
itself (`step`) and what each of its own moves has to keep (`keep`). -/
structure Contract (S : Sig) (ε X : Type) where
  rely : X → X → Prop
  step : X → (a : S.Act) → Except ε (S.Resp a) → X → Prop
  keep : X → (a : S.Act) → Except ε (S.Resp a) → X → Prop
  refl : ∀ x, rely x x
  trans : ∀ {x y z}, rely x y → rely y z → rely x z

variable {S : Sig} {ε α β X : Type}

/-- A state predicate that the other threads' moves preserve. -/
def Contract.Stable (K : Contract S ε X) (P : X → Prop) : Prop :=
  ∀ ⦃x y⦄, K.rely x y → P x → P y

/-- The Hoare triple of one action: in `P`, which the others preserve, the action keeps
its contract and ends in `R`. -/
structure Contract.Triple (K : Contract S ε X) (P : X → Prop) (a : S.Act)
    (R : Except ε (S.Resp a) → X → Prop) : Prop where
  stable : K.Stable P
  step : ∀ {y r z}, P y → K.step y a r z → K.keep y a r z ∧ R r z

theorem Contract.Triple.mono {K : Contract S ε X} {P : X → Prop} {a : S.Act}
    {R R' : Except ε (S.Resp a) → X → Prop} (h : K.Triple P a R) (hR : ∀ r z, R r z → R' r z) :
    K.Triple P a R' :=
  ⟨h.stable, fun hy hs => ⟨(h.step hy hs).1, hR _ _ (h.step hy hs).2⟩⟩

/-- **The judgement.** From state `x`, with the others moving along `K.rely` at
any time, every step of `c` meets `K.keep` and `c` ends in `Q`. -/
def Prog.Safe (K : Contract S ε X) (Q : Except ε α → X → Prop) : Prog S ε α → X → Prop
  | .ret v, x => ∀ y, K.rely x y → Q (.ok v) y
  | .throw e, x => ∀ y, K.rely x y → Q (.error e) y
  | .call a k, x => ∀ y, K.rely x y → ∀ r z, K.step y a r z →
      K.keep y a r z ∧ (k r).Safe K Q z

/-- Any answer may come; the actions are among those of `A`. -/
def Contract.asks (A : S.Act → Prop) : Contract S ε Unit where
  rely _ _ := True
  step _ _ _ _ := True
  keep _ a _ _ := A a
  refl _ := trivial
  trans _ _ := trivial

namespace Prog

variable {K : Contract S ε X} {Q Q' : Except ε α → X → Prop}

/-- The others' moves keep a thread safe. -/
theorem safe_stable {c : Prog S ε α} {x y : X} (hr : K.rely x y) (h : c.Safe K Q x) :
    c.Safe K Q y := by
  cases c with
  | ret v => exact fun z hz => h z (K.trans hr hz)
  | throw e => exact fun z hz => h z (K.trans hr hz)
  | call a k => exact fun z hz => h z (K.trans hr hz)

/-- A finished program's postcondition holds now. -/
theorem Safe.done {c : Prog S ε α} {x : X} (hc : c.Done) (h : c.Safe K Q x) :
    ∃ r, Q r x := by
  cases c with
  | ret v => exact ⟨_, h x (K.refl x)⟩
  | throw e => exact ⟨_, h x (K.refl x)⟩
  | call a k => exact absurd hc (not_done_call a k)

/-- A thread that is safe makes its next step within its contract, and stays safe. -/
theorem Safe.next {a : S.Act} {k : Except ε (S.Resp a) → Prog S ε α} {x z : X}
    {r : Except ε (S.Resp a)} (h : (Prog.call a k).Safe K Q x) (hs : K.step x a r z) :
    K.keep x a r z ∧ (k r).Safe K Q z := h x (K.refl x) r z hs

/-- **Consequence**: assume more, promise less. -/
theorem safe_contract {K' : Contract S ε X} (hrely : ∀ {x y}, K'.rely x y → K.rely x y)
    (hstep : ∀ {x a r y}, K'.step x a r y → K.step x a r y)
    (hkeep : ∀ {x a r y}, K.keep x a r y → K'.keep x a r y) (hQ : ∀ r x, Q r x → Q' r x)
    {c : Prog S ε α} : ∀ {x}, c.Safe K Q x → c.Safe K' Q' x := by
  induction c with
  | ret v => exact fun h y hy => hQ _ _ (h y (hrely hy))
  | throw e => exact fun h y hy => hQ _ _ (h y (hrely hy))
  | call a k ih =>
    intro x h y hy r z hs
    -- the weaker contract's moves and steps are among those `c` is safe for
    obtain ⟨hk, hrest⟩ := h y (hrely hy) r z (hstep hs)
    exact ⟨hkeep hk, ih r hrest⟩

theorem safe_mono {c : Prog S ε α} (hQ : ∀ r x, Q r x → Q' r x) {x : X} (h : c.Safe K Q x) :
    c.Safe K Q' x := safe_contract id id id hQ h

/-- The postcondition a thread needs before it goes on with `f`. -/
def thenPost (K : Contract S ε X) (Q : Except ε β → X → Prop) (f : α → Prog S ε β) :
    Except ε α → X → Prop
  | .ok v, x => (f v).Safe K Q x
  | .error e, x => ∀ y, K.rely x y → Q (.error e) y

/-- **Sequencing.** -/
theorem safe_bind {Q : Except ε β → X → Prop} {c : Prog S ε α} {f : α → Prog S ε β} :
    ∀ {x}, c.Safe K (thenPost K Q f) x → (c.bind f).Safe K Q x := by
  induction c with
  | ret v => exact fun {x} h => h x (K.refl x)
  | throw e =>
    -- `f` does not run
    exact fun {x} h y hy => h y hy y (K.refl y)
  | call a k ih =>
    intro x h y hy r z hs
    obtain ⟨hk, hrest⟩ := h y hy r z hs
    exact ⟨hk, ih r hrest⟩

/-- The postcondition of a body whose exceptions the handler `f` takes. -/
def catchPost (K : Contract S ε X) (Q : Except ε α → X → Prop) (f : ε → Prog S ε α) :
    Except ε α → X → Prop
  | .ok v, x => Q (.ok v) x
  | .error e, x => (f e).Safe K Q x

/-- **Exception handling.** -/
theorem safe_tryCatch {c : Prog S ε α} {f : ε → Prog S ε α} :
    ∀ {x}, c.Safe K (catchPost K Q f) x → (c.tryCatch f).Safe K Q x := by
  induction c with
  | ret v => exact fun h => h
  | throw e => exact fun {x} h => h x (K.refl x)
  | call a k ih =>
    intro x h y hy r z hs
    obtain ⟨hk, hrest⟩ := h y hy r z hs
    exact ⟨hk, ih r hrest⟩

/-- The postcondition of a body after which the cleanup `d` runs. -/
def ensurePost (K : Contract S ε X) (Q : Except ε α → X → Prop) (d : Prog S ε Unit) :
    Except ε α → X → Prop
  | .ok v, x => (d.bind fun _ => .ret v).Safe K Q x
  | .error e, x => (d.bind fun _ => .throw e).Safe K Q x

/-- **Cleaning up.** -/
theorem safe_ensuring {c : Prog S ε α} {d : Prog S ε Unit} :
    ∀ {x}, c.Safe K (ensurePost K Q d) x → (c.ensuring d).Safe K Q x := by
  induction c with
  | ret v => exact fun {x} h => h x (K.refl x)
  | throw e => exact fun {x} h => h x (K.refl x)
  | call a k ih =>
    intro x h y hy r z hs
    obtain ⟨hk, hrest⟩ := h y hy r z hs
    exact ⟨hk, ih r hrest⟩

/-- **One action, then the rest.** -/
theorem safe_perform {Q : Except ε β → X → Prop} {P : X → Prop} {a : S.Act}
    {R : Except ε (S.Resp a) → X → Prop} (ht : K.Triple P a R) {f : S.Resp a → Prog S ε β} {x : X}
    (hx : P x) (hok : ∀ v z, R (.ok v) z → (f v).Safe K Q z)
    (herr : ∀ e z, R (.error e) z → ∀ z', K.rely z z' → Q (.error e) z') :
    ((perform a).bind f).Safe K Q x := by
  intro y hy r z hs
  -- `P` still holds after the moves of the others
  have hPy : P y := ht.stable hy hx
  obtain ⟨hkeep, hR⟩ := ht.step hPy hs
  cases r with
  | ok v => exact ⟨hkeep, hok v z hR⟩
  | error e => exact ⟨hkeep, herr e z hR⟩

/-- The last action of a program. -/
theorem safe_perform_last {P : X → Prop} {a : S.Act} {R : Except ε (S.Resp a) → X → Prop}
    (ht : K.Triple P a R) (hR : ∀ r, K.Stable (R r)) {x : X} (hx : P x) :
    (perform a).Safe K R x := by
  intro y hy r z hs
  have hPy : P y := ht.stable hy hx
  obtain ⟨hkeep, hr⟩ := ht.step hPy hs
  cases r with
  | ok v => exact ⟨hkeep, fun z' hz => hR _ hz hr⟩
  | error e => exact ⟨hkeep, fun z' hz => hR _ hz hr⟩

theorem safe_ret {v : α} {x : X} (hQ : K.Stable (Q (.ok v))) (hx : Q (.ok v) x) :
    (Prog.ret v : Prog S ε α).Safe K Q x := fun _ hy => hQ hy hx

theorem safe_throw {e : ε} {x : X} (hQ : K.Stable (Q (.error e))) (hx : Q (.error e) x) :
    (Prog.throw e : Prog S ε α).Safe K Q x := fun _ hy => hQ hy hx

theorem safe_ite {p : Prop} [Decidable p] {c d : Prog S ε α} {x : X} (hc : p → c.Safe K Q x)
    (hd : ¬ p → d.Safe K Q x) : (if p then c else d).Safe K Q x := by
  split
  · exact hc ‹_›
  · exact hd ‹_›

/-- Every action the program can ask satisfies `A`. -/
def Only (A : S.Act → Prop) : Prog S ε α → Prop
  | .ret _ | .throw _ => True
  | .call a k => A a ∧ ∀ r, (k r).Only A

/-- A program whose actions all keep their contract and an assertion `I` is safe. -/
theorem Only.safe {A : S.Act → Prop} {I : X → Prop} (hI : K.Stable I)
    (hstep : ∀ {y a r z}, A a → I y → K.step y a r z → K.keep y a r z ∧ I z) :
    ∀ {c : Prog S ε α} {x : X}, c.Only A → I x → c.Safe K (fun _ => I) x := by
  intro c
  induction c with
  | ret v => exact fun _ hx y hy => hI hy hx
  | throw e => exact fun _ hx y hy => hI hy hx
  | call a k ih =>
    intro x h hx y hy r z hs
    have hIy : I y := hI hy hx
    obtain ⟨hk, hz⟩ := hstep h.1 hIy hs
    exact ⟨hk, ih r (h.2 r) hz⟩

theorem only_of_forall {A : S.Act → Prop} (hA : ∀ a, A a) : ∀ c : Prog S ε α, c.Only A
  | .ret _ => trivial
  | .throw _ => trivial
  | .call a k => ⟨hA a, fun r => only_of_forall hA (k r)⟩

theorem Only.mono {A B : S.Act → Prop} (hAB : ∀ {a}, A a → B a) {c : Prog S ε α} :
    c.Only A → c.Only B := by
  induction c with
  | ret v => exact id
  | throw e => exact id
  | call a k ih => exact fun h => ⟨hAB h.1, fun r => ih r (h.2 r)⟩

theorem Only.bind {A : S.Act → Prop} {c : Prog S ε α} {f : α → Prog S ε β} :
    c.Only A → (∀ v, (f v).Only A) → (c.bind f).Only A := by
  induction c with
  | ret v => exact fun _ hf => hf v
  | throw e => exact fun _ _ => trivial
  | call a k ih => exact fun hc hf => ⟨hc.1, fun r => ih r (hc.2 r) hf⟩

theorem Only.tryCatch {A : S.Act → Prop} {c : Prog S ε α} {f : ε → Prog S ε α} :
    c.Only A → (∀ e, (f e).Only A) → (c.tryCatch f).Only A := by
  induction c with
  | ret v => exact fun _ _ => trivial
  | throw e => exact fun _ hf => hf e
  | call a k ih => exact fun hc hf => ⟨hc.1, fun r => ih r (hc.2 r) hf⟩

theorem only_perform {A : S.Act → Prop} {a : S.Act} (ha : A a) :
    (perform a : Prog S ε (S.Resp a)).Only A := ⟨ha, fun r => by cases r <;> exact trivial⟩

theorem only_ite {A : S.Act → Prop} {b : Prop} [Decidable b] {c d : Prog S ε α} (hc : c.Only A)
    (hd : d.Only A) : (if b then c else d).Only A := by
  split
  · exact hc
  · exact hd

/-- A program that keeps `A` whatever the answers asks nothing else. -/
theorem only_of_safe [Inhabited ε] {A : S.Act → Prop} {Q : Except ε α → Unit → Prop}
    {c : Prog S ε α} :
    c.Safe (.asks A) Q () → c.Only A := by
  induction c with
  | ret v => exact fun _ => trivial
  | throw e => exact fun _ => trivial
  | call a k ih =>
    intro h
    refine ⟨(h () trivial (.error default) () trivial).1, fun r => ih r ?_⟩
    exact (h () trivial r () trivial).2

/-! ### Running alone -/

variable {W : Type}

/-- `c` run alone from `w`, with `exec` telling what an action does, ends with result `r`
in `w'`. -/
def Ends (exec : W → (a : S.Act) → Except ε (S.Resp a) → W → Prop) :
    Prog S ε α → W → Except ε α → W → Prop
  | .ret v, w, r, w' => r = .ok v ∧ w' = w
  | .throw e, w, r, w' => r = .error e ∧ w' = w
  | .call a k, w, r, w' => ∃ x u, exec w a x u ∧ (k x).Ends exec u r w'

/-- Run `c` alone, with one answer for every action. -/
def eval (act : W → (a : S.Act) → Option (Except ε (S.Resp a) × W)) :
    Prog S ε α → W → Option (Except ε α × W)
  | .ret v, w => some (.ok v, w)
  | .throw e, w => some (.error e, w)
  | .call a k, w => (act w a).bind fun x => (k x.1).eval act x.2

variable {exec : W → (a : S.Act) → Except ε (S.Resp a) → W → Prop} {w w' : W}

/-- **A sequence that returns** ran its first part to a value and the rest from there. -/
theorem ends_bind {c : Prog S ε α} {f : α → Prog S ε β} {v : β} :
    ∀ {w}, (c.bind f).Ends exec w (.ok v) w' →
      ∃ u m, c.Ends exec w (.ok u) m ∧ (f u).Ends exec m (.ok v) w' := by
  induction c with
  | ret u => exact fun {w} h => ⟨u, w, ⟨rfl, rfl⟩, h⟩
  | throw e => exact fun h => absurd h.1 nofun
  | call a k ih =>
    rintro w ⟨x, u, hx, h⟩
    obtain ⟨v, m, hk, hf⟩ := ih x h
    exact ⟨v, m, ⟨x, u, hx, hk⟩, hf⟩

/-- A sequence that throws did so in one of its parts. -/
theorem ends_bind_error {c : Prog S ε α} {f : α → Prog S ε β} {e : ε} :
    ∀ {w}, (c.bind f).Ends exec w (.error e) w' → c.Ends exec w (.error e) w' ∨
      ∃ u m, c.Ends exec w (.ok u) m ∧ (f u).Ends exec m (.error e) w' := by
  induction c with
  | ret u => exact fun {w} h => .inr ⟨u, w, ⟨rfl, rfl⟩, h⟩
  | throw e' =>
    rintro w ⟨he, hw⟩
    cases he
    exact .inl ⟨rfl, hw⟩
  | call a k ih =>
    rintro w ⟨x, u, hx, h⟩
    rcases ih x h with hk | ⟨v, m, hk, hf⟩
    · exact .inl ⟨x, u, hx, hk⟩
    · exact .inr ⟨v, m, ⟨x, u, hx, hk⟩, hf⟩

/-- One action that returned. -/
theorem ends_perform {a : S.Act} {v : S.Resp a} (h : (perform a).Ends exec w (.ok v) w') :
    exec w a (.ok v) w' := by
  obtain ⟨x, u, hx, h⟩ := h
  cases x with
  | ok y =>
    obtain ⟨hv, rfl⟩ := h
    cases hv
    exact hx
  | error e => exact absurd h.1 nofun

/-- What every action preserves, the program preserves. -/
theorem Only.ends {A : S.Act → Prop} {P : W → Prop}
    (hstep : ∀ {w a r w'}, A a → exec w a r w' → P w → P w') {c : Prog S ε α} {r : Except ε α} :
    ∀ {w}, c.Only A → c.Ends exec w r w' → P w → P w' := by
  induction c with
  | ret v => exact fun _ h hp => h.2 ▸ hp
  | throw e => exact fun _ h hp => h.2 ▸ hp
  | call a k ih =>
    rintro w hc ⟨x, u, hx, h⟩ hp
    have hu : P u := hstep hc.1 hx hp
    exact ih x (hc.2 x) h hu

/-- What evaluation finds, the program does. -/
theorem ends_of_eval {act : W → (a : S.Act) → Option (Except ε (S.Resp a) × W)}
    (hact : ∀ {w a r w'}, act w a = some (r, w') → exec w a r w') {c : Prog S ε α}
    {r : Except ε α} : ∀ {w}, c.eval act w = some (r, w') → c.Ends exec w r w' := by
  induction c with
  | ret v => intro w h; cases h; exact ⟨rfl, rfl⟩
  | throw e => intro w h; cases h; exact ⟨rfl, rfl⟩
  | call a k ih =>
    intro w h
    obtain ⟨⟨x, u⟩, hx, h⟩ := Option.bind_eq_some_iff.1 h
    exact ⟨x, u, hact hx, ih x h⟩

/-- **Where every action has the answer of `act`**, the program does what evaluation finds. -/
theorem ends_unique {act : W → (a : S.Act) → Option (Except ε (S.Resp a) × W)}
    (hact : ∀ {w a x r w'}, act w a = some x → exec w a r w' → x = (r, w')) {c : Prog S ε α}
    {x : Except ε α × W} {r : Except ε α} :
    ∀ {w}, c.eval act w = some x → c.Ends exec w r w' → x = (r, w') := by
  induction c with
  | ret v => rintro w h ⟨rfl, rfl⟩; exact (Option.some.inj h).symm
  | throw e => rintro w h ⟨rfl, rfl⟩; exact (Option.some.inj h).symm
  | call a k ih =>
    rintro w h ⟨y, u, hy, hk⟩
    obtain ⟨z, hz, h⟩ := Option.bind_eq_some_iff.1 h
    cases hact hz hy
    exact ih y h hk

theorem eval_bind {act : W → (a : S.Act) → Option (Except ε (S.Resp a) × W)} {c : Prog S ε α}
    {f : α → Prog S ε β} {v : α} : ∀ {w}, c.eval act w = some (.ok v, w') →
      (c.bind f).eval act w = (f v).eval act w' := by
  induction c with
  | ret u => intro w h; cases h; rfl
  | throw e => intro w h; cases h
  | call a k ih =>
    intro w h
    obtain ⟨⟨x, u⟩, hx, h⟩ := Option.bind_eq_some_iff.1 h
    simp only [bind, eval, hx, Option.bind_some]
    exact ih x h

end Prog

/-- The postcondition of a value, and one for every exception. -/
def onOk (Q : α → X → Prop) (E : X → Prop) : Except ε α → X → Prop
  | .ok v, x => Q v x
  | .error _, x => E x

theorem onOk_of_forall {I E : X → Prop} (hIE : ∀ x, I x → E x) (r : Except ε α) (x : X) (hx : I x) :
    onOk (fun _ => I) E r x := by
  cases r with
  | ok v => exact hx
  | error e => exact hIE x hx

theorem Contract.stable_onOk {K : Contract S ε X} {Q : α → X → Prop} {E : X → Prop}
    (hQ : ∀ v, K.Stable (Q v)) (hE : K.Stable E) (r : Except ε α) : K.Stable (onOk Q E r) := by
  cases r with
  | ok v => exact hQ v
  | error e => exact hE

end SsdCache.Atomic
