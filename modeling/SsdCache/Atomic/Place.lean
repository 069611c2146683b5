import SsdCache.Atomic.Sum

/-!
# Places

Where a thread is in its code, and what it may rely on there. A `Places` says what a thread
at a place knows of the world and of the history (`knows`), what the other threads leave to
it (`rely`), which actions it may ask next (`allows`) and where their answers take it
(`moves`); its one obligation about the machine is `step`. Then `Leads c q R` follows a
program from place to place, by a rule for each way to put programs together, with no world
in sight.

* `Places.outline`: operations that lead from where a thread rests to where it rests make a
  proof outline.
* `Places.guard_of_run`: **in every run every action has what it needs**.
* `Places.rests_of_run`: **an idle thread is where it rests**.
-/

namespace SsdCache.Atomic

variable {S : Sig} {ε W T C : Type}

structure Places (M : Machine S ε W T C) (cond : Hist S ε W T C → W → Label S ε T C → Prop)
    (Q : Type) where
  knows : T → Q → Hist S ε W T C × W → Prop
  rely : T → Hist S ε W T C × W → Hist S ε W T C × W → Prop
  /-- What an action needs. -/
  guard : T → Hist S ε W T C × W → S.Act → Prop
  allows : T → Q → S.Act → Prop
  moves : T → Q → (a : S.Act) → Except ε (S.Resp a) → Q → Prop
  refl : ∀ t x, rely t x x
  trans : ∀ {t x y z}, rely t x y → rely t y z → rely t x z
  stable : ∀ {t q x y}, rely t x y → knows t q x → knows t q y
  step : ∀ {t q x a r y}, knows t q x → allows t q a → M.next cond t x a r y →
    guard t x a ∧ (∀ u, u ≠ t → rely u x y) ∧ ∃ q', moves t q a r q' ∧ knows t q' y
  call : ∀ {t u h w o}, t ≠ u → rely u (h, w) ((w, .call t o) :: h, w)
  env : ∀ {t h w w'}, M.env w w' → cond h w .env → rely t (h, w) ((w, .env) :: h, w')

namespace Places

variable {M : Machine S ε W T C} {cond : Hist S ε W T C → W → Label S ε T C → Prop} {Q : Type}
variable (P : Places M cond Q) {t : T} {q : Q} {α β : Type}

def contract (t : T) : Contract S ε (Hist S ε W T C × W) :=
  M.contract cond t (P.rely t) (fun x a _ y => P.guard t x a ∧ ∀ u, u ≠ t → P.rely u x y)
    (P.refl t) P.trans

/-- At a place of `R`. -/
def Ends (t : T) (R : Except ε α → Q → Prop) (r : Except ε α) (x : Hist S ε W T C × W) : Prop :=
  ∃ q, R r q ∧ P.knows t q x

/-- **The judgement**: from place `q`, the actions of `c` are allowed and it ends at a place
of `R`. -/
def Leads (t : T) (c : Prog S ε α) (q : Q) (R : Except ε α → Q → Prop) : Prop :=
  ∀ ⦃x⦄, P.knows t q x → c.Safe (P.contract t) (P.Ends t R) x

variable {P} {R : Except ε α → Q → Prop}

theorem stable_ends (r : Except ε α) : (P.contract t).Stable (P.Ends t R r) :=
  fun _ _ hr ⟨q, hR, hq⟩ => ⟨q, hR, P.stable hr hq⟩

theorem stable_knows : (P.contract t).Stable (P.knows t q) := fun _ _ hr hq => P.stable hr hq

theorem leads_ret {v : α} (hR : R (.ok v) q) : P.Leads t (.ret v) q R :=
  fun _ hx => Prog.safe_ret (stable_ends _) ⟨q, hR, hx⟩

theorem leads_throw {e : ε} (hR : R (.error e) q) : P.Leads t (.throw e) q R :=
  fun _ hx => Prog.safe_throw (stable_ends _) ⟨q, hR, hx⟩

theorem Leads.mono {R' : Except ε α → Q → Prop} {c : Prog S ε α} (hc : P.Leads t c q R)
    (hR : ∀ r q', R r q' → R' r q') : P.Leads t c q R' := fun _ hx =>
  Prog.safe_mono (fun r _ ⟨q', hq', hz⟩ => ⟨q', hR r q' hq', hz⟩) (hc hx)

/-- The first action of a program. -/
theorem leads_call {a : S.Act} {k : Except ε (S.Resp a) → Prog S ε α} (ha : P.allows t q a)
    (hk : ∀ r q', P.moves t q a r q' → P.Leads t (k r) q' R) : P.Leads t (.call a k) q R := by
  intro x hx y hy r z hs
  obtain ⟨hguard, hothers, q', hmoves, hz⟩ := P.step (P.stable hy hx) ha hs
  exact ⟨⟨hguard, hothers⟩, hk r q' hmoves hz⟩

/-- **One action, then the rest.** -/
theorem leads_then {a : S.Act} {f : S.Resp a → Prog S ε α} (ha : P.allows t q a)
    (herror : ∀ e q', P.moves t q a (.error e) q' → R (.error e) q')
    (hok : ∀ v q', P.moves t q a (.ok v) q' → P.Leads t (f v) q' R) :
    P.Leads t ((Prog.perform a).bind f) q R := by
  refine leads_call ha fun r q' hmoves => ?_
  cases r with
  | ok v => exact hok v q' hmoves
  | error e => exact leads_throw (herror e q' hmoves)

/-- One action at the end. -/
theorem leads_last {a : S.Act} {R : Except ε (S.Resp a) → Q → Prop} (ha : P.allows t q a)
    (hR : ∀ r q', P.moves t q a r q' → R r q') : P.Leads t (Prog.perform a) q R := by
  refine leads_call ha fun r q' hmoves => ?_
  cases r with
  | ok v => exact leads_ret (hR _ q' hmoves)
  | error e => exact leads_throw (hR _ q' hmoves)

/-- **Sequencing.** -/
theorem Leads.bind {R : Except ε β → Q → Prop} {R' : Except ε α → Q → Prop} {c : Prog S ε α}
    {f : α → Prog S ε β} (hc : P.Leads t c q R') (herror : ∀ e q', R' (.error e) q' → R (.error e) q')
    (hok : ∀ v q', R' (.ok v) q' → P.Leads t (f v) q' R) : P.Leads t (c.bind f) q R := by
  intro x hx
  refine Prog.safe_bind (Prog.safe_mono (fun r z hz => ?_) (hc hx))
  obtain ⟨q', hq', hz⟩ := hz
  cases r with
  | ok v => exact hok v q' hq' hz
  | error e => exact fun y hy => ⟨q', herror e q' hq', P.stable hy hz⟩

/-- **Exception handling.** -/
theorem Leads.tryCatch {R' : Except ε α → Q → Prop} {c : Prog S ε α} {f : ε → Prog S ε α}
    (hc : P.Leads t c q R') (hok : ∀ v q', R' (.ok v) q' → R (.ok v) q')
    (herror : ∀ e q', R' (.error e) q' → P.Leads t (f e) q' R) : P.Leads t (c.tryCatch f) q R := by
  intro x hx
  refine Prog.safe_tryCatch (Prog.safe_mono (fun r z hz => ?_) (hc hx))
  obtain ⟨q', hq', hz⟩ := hz
  cases r with
  | ok v => exact ⟨q', hok v q' hq', hz⟩
  | error e => exact herror e q' hq' hz

/-- **Cleaning up**: the cleanup runs from wherever the body ends. -/
theorem Leads.ensuring {R' : Except ε α → Q → Prop} {c : Prog S ε α} {d : Prog S ε Unit}
    (hc : P.Leads t c q R')
    (hok : ∀ v q', R' (.ok v) q' → P.Leads t (d.bind fun _ => .ret v) q' R)
    (herror : ∀ e q', R' (.error e) q' → P.Leads t (d.bind fun _ => .throw e) q' R) :
    P.Leads t (c.ensuring d) q R := by
  intro x hx
  refine Prog.safe_ensuring (Prog.safe_mono (fun r z hz => ?_) (hc hx))
  obtain ⟨q', hq', hz⟩ := hz
  cases r with
  | ok v => exact hok v q' hq' hz
  | error e => exact herror e q' hq' hz

/-- Programs whose actions are allowed and lead from `I` to `I`. -/
theorem leads_within {A : S.Act → Prop} {I : Q → Prop} {c : Prog S ε α}
    (hA : ∀ {a q}, A a → I q → P.allows t q a ∧ ∀ r q', P.moves t q a r q' → I q') :
    ∀ {q}, c.Only A → I q → P.Leads t c q fun _ => I := by
  induction c with
  | ret v => exact fun _ hq => leads_ret hq
  | throw e => exact fun _ hq => leads_throw hq
  | call a k ih =>
    intro q hc hq
    obtain ⟨hallowed, hnext⟩ := hA hc.1 hq
    exact leads_call hallowed fun r q' hmoves => ih r (hc.2 r) (hnext r q' hmoves)

/-- Programs whose actions are allowed and lead nowhere else. -/
theorem leads_only {A : S.Act → Prop} {c : Prog S ε α} (hc : c.Only A)
    (hA : ∀ {a}, A a → P.allows t q a ∧ ∀ r q', P.moves t q a r q' → q' = q) :
    P.Leads t c q fun _ q' => q' = q := by
  refine leads_within (I := fun q' => q' = q) (fun {a q'} ha hq' => ?_) hc rfl
  subst hq'
  exact hA ha

/-- Programs that throw only what an action throws, where no action throws. -/
theorem leads_returns {A : S.Act → Prop}
    (hA : ∀ {a}, A a → P.allows t q a ∧
      ∀ r q', P.moves t q a r q' → (∃ v, r = .ok v) ∧ q' = q) {c : Prog S ε α} :
    c.Only A → c.Rethrows → P.Leads t c q fun r q' => (∃ v, r = .ok v) ∧ q' = q := by
  induction c with
  | ret v => exact fun _ _ => leads_ret ⟨⟨v, rfl⟩, rfl⟩
  | throw e => exact fun _ hr => hr.elim
  | call a k ih =>
    intro hc hr
    obtain ⟨hallowed, hnext⟩ := hA hc.1
    refine leads_call hallowed fun r q' hmoves => ?_
    obtain ⟨⟨v, rfl⟩, rfl⟩ := hnext r q' hmoves
    exact ih (.ok v) (hc.2 (.ok v)) (hr.2 v)

/-- **Programs in place of actions**: if each leads from `q` to `q`, so does the whole. -/
theorem leads_expand {S' : Sig} {A : S'.Act → Prop} {f : (a : S'.Act) → Prog S ε (S'.Resp a)}
    {c : Prog S' ε α} (hc : c.Only A) (hf : ∀ {a}, A a → P.Leads t (f a) q fun _ q' => q' = q) :
    P.Leads t (c.expand f) q fun _ q' => q' = q := by
  intro x hx
  have hstays : ∀ {a y}, A a → P.knows t q y →
      (f a).Safe (P.contract t) (fun _ => P.knows t q) y := fun ha hy => by
    refine Prog.safe_mono (fun _ z hz => ?_) (hf ha hy)
    obtain ⟨q', he, hz⟩ := hz
    exact he ▸ hz
  exact Prog.safe_mono (fun _ z hz => ⟨q, rfl, hz⟩)
    (Prog.safe_expand stable_knows hstays hc hx)

/-! ## Runs -/

variable [DecidableEq T]

/-- Every operation leads from where a thread rests to where it rests. -/
def Bodies (P : Places M cond Q) (rest : T → Q → Prop) : Prop :=
  ∀ {t h c o q}, M.menu t c o → cond h c.world (.call t o) → rest t q →
    P.knows t q (h, c.world) → ∃ q', P.knows t q' ((c.world, .call t o) :: h, c.world) ∧
      P.Leads t (M.body o) q' fun _ => rest t

/-- Threads that begin at rest, or in a program that leads there. -/
def Begins (P : Places M cond Q) (rest : T → Q → Prop) (c₀ : Config S ε W T) : Prop :=
  ∀ t, ∃ q, P.knows t q ([], c₀.world) ∧ P.Leads t (c₀.prog t) q fun _ => rest t

variable {rest : T → Q → Prop} {h : Hist S ε W T C} {c₀ c : Config S ε W T}

/-- The proof outline of such operations. -/
def outline (P : Places M cond Q) (hb : P.Bodies rest) : Outline M cond where
  contract := P.contract
  idle t x := ∃ q, rest t q ∧ P.knows t q x
  step_eq _ := rfl
  stable _ _ _ hr := fun ⟨q, hrest, hq⟩ => ⟨q, hrest, P.stable hr hq⟩
  act htu _ hk := hk.2 _ (Ne.symm htu)
  call htu := P.call htu
  env he hc := P.env he hc
  body hm hc hidle := by
    obtain ⟨q, hrest, hq⟩ := hidle
    obtain ⟨q', hq', hleads⟩ := hb hm hc hrest hq
    exact hleads hq'

theorem holds_of_run (hb : P.Bodies rest) (h0 : P.Begins rest c₀) (hrun : Run M c₀ h c)
    (hm : Meets cond h) : (P.outline hb).Holds h c := by
  refine hrun.invariant (fun t => ?_) (P.outline hb).step hm
  obtain ⟨q, hq, hleads⟩ := h0 t
  exact hleads hq

/-- **In every run every action has what it needs.** -/
theorem guard_of_run (hb : P.Bodies rest) (h0 : P.Begins rest c₀) (hrun : Run M c₀ h c)
    (hm : Meets cond h) : Meets (fun h w l => ∀ t a r, l = .act t a r → P.guard t (h, w) a) h := by
  induction hrun with
  | init => trivial
  | @step h c c' l hrun hs ih =>
    refine ⟨?_, ih hm.2⟩
    rintro t a r rfl
    cases hs with
    | act hk hx =>
      obtain ⟨hkeep, -⟩ := (P.outline hb).own (holds_of_run hb h0 hrun hm.2) hk hx hm.1
      exact hkeep.1

/-- **An idle thread is where it rests.** -/
theorem rests_of_run (hb : P.Bodies rest) (h0 : P.Begins rest c₀) (hrun : Run M c₀ h c)
    (hm : Meets cond h) (hd : (c.prog t).Done) : ∃ q, rest t q ∧ P.knows t q (h, c.world) := by
  obtain ⟨-, hidle⟩ := (holds_of_run hb h0 hrun hm t).done hd
  exact hidle

end Places

end SsdCache.Atomic
