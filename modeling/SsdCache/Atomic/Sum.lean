import SsdCache.Atomic.Trace

/-!
# Programs over two signatures

`S.sum T` has the actions of both signatures. A program over `S` is one over the sum
(`Prog.left`), does the same calls there and keeps what it kept. `Prog.expand` puts a
program over `T` in place of every action of `S`.
-/

namespace SsdCache.Atomic

/-- The actions of both signatures. -/
def Sig.sum (S T : Sig) : Sig := ⟨S.Act ⊕ T.Act, Sum.elim S.Resp T.Resp⟩

variable {S T : Sig} {ε α β X : Type}

namespace Prog

/-- A program over `S`, as one over the sum. -/
def left : Prog S ε α → Prog (S.sum T) ε α
  | .ret v => .ret v
  | .throw e => .throw e
  | .call a k => .call (S := S.sum T) (.inl a) fun r => (k r).left

/-- One action of `T`. -/
def right (a : T.Act) : Prog (S.sum T) ε (T.Resp a) := perform (S := S.sum T) (.inr a)

theorem left_perform (a : S.Act) :
    (perform a : Prog S ε (S.Resp a)).left (T := T) = perform (S := S.sum T) (.inl a) := by
  refine congrArg (Prog.call (S := S.sum T) (.inl a)) (funext fun r => ?_)
  cases r with
  | ok v => rfl
  | error e => rfl

/-- A program over `S` asks no action of `T`. -/
theorem Only.left {A : S.Act → Prop} {B : (S.sum T).Act → Prop} (hAB : ∀ {a}, A a → B (.inl a))
    {c : Prog S ε α} : c.Only A → (c.left (T := T)).Only B := by
  induction c with
  | ret v => exact id
  | throw e => exact id
  | call a k ih => exact fun h => ⟨hAB h.1, fun r => ih r (h.2 r)⟩

theorem Rethrows.left {c : Prog S ε α} : c.Rethrows → (c.left (T := T)).Rethrows := by
  induction c with
  | ret v => exact id
  | throw e => exact id
  | call a k ih =>
    intro h
    refine ⟨fun e => ?_, fun v => ih (.ok v) (h.2 v)⟩
    exact congrArg (Prog.left (T := T)) (h.1 e)

end Prog

/-- The part of a contract that is about the actions of `S`. -/
def Contract.left (K : Contract (S.sum T) ε X) : Contract S ε X where
  rely := K.rely
  step x a r y := K.step x (.inl a) r y
  keep x a r y := K.keep x (.inl a) r y
  refl := K.refl
  trans := K.trans

/-- **A program keeps in the sum what it keeps alone.** -/
theorem Prog.safe_left {K : Contract (S.sum T) ε X} {Q : Except ε α → X → Prop} {c : Prog S ε α} :
    ∀ {x}, c.Safe K.left Q x → (c.left (T := T)).Safe K Q x := by
  induction c with
  | ret v => exact id
  | throw e => exact id
  | call a k ih =>
    intro x h y hy r z hs
    obtain ⟨hk, hrest⟩ := h y hy r z hs
    exact ⟨hk, ih r hrest⟩

/-! ## Programs in place of actions -/

namespace Prog

/-- The result of `c` as a value. -/
def attempt : Prog S ε α → Prog S ε (Except ε α)
  | .ret v => .ret (.ok v)
  | .throw e => .ret (.error e)
  | .call a k => .call a fun r => (k r).attempt

/-- `c` with the program `f a` in place of every action `a`. -/
def expand (f : (a : S.Act) → Prog T ε (S.Resp a)) : Prog S ε α → Prog T ε α
  | .ret v => .ret v
  | .throw e => .throw e
  | .call a k => (f a).attempt.bind fun r => (k r).expand f

theorem safe_attempt {K : Contract S ε X} {I : X → Prop} {c : Prog S ε α} :
    ∀ {x}, c.Safe K (fun _ => I) x → c.attempt.Safe K (fun _ => I) x := by
  induction c with
  | ret v => exact id
  | throw e => exact id
  | call a k ih =>
    intro x h y hy r z hs
    obtain ⟨hk, hrest⟩ := h y hy r z hs
    exact ⟨hk, ih r hrest⟩

/-- **If every action's program keeps the assertion `I`**, so does the whole. -/
theorem safe_expand {K : Contract T ε X} {I : X → Prop} (hI : K.Stable I) {A : S.Act → Prop}
    {f : (a : S.Act) → Prog T ε (S.Resp a)}
    (hf : ∀ {a x}, A a → I x → (f a).Safe K (fun _ => I) x) {c : Prog S ε α} :
    ∀ {x}, c.Only A → I x → (c.expand f).Safe K (fun _ => I) x := by
  induction c with
  | ret v => exact fun _ hx _ hy => hI hy hx
  | throw e => exact fun _ hx _ hy => hI hy hx
  | call a k ih =>
    intro x hc hx
    refine safe_bind (safe_mono ?_ (safe_attempt (hf hc.1 hx)))
    intro r z hz
    cases r with
    | ok r => exact ih r (hc.2 r) hz
    | error e => exact fun y hy => hI hy hz

end Prog

end SsdCache.Atomic
