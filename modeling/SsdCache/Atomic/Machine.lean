import SsdCache.Atomic.Prog

/-!
# Concurrent machines and their runs

A `Machine` is a set of threads over one world. An idle thread starts any
operation of its menu; a busy one performs the next atomic action of its
program; between them the environment moves the world. `Run` lists what happened,
newest first, each entry with the world before it, so that a ghost variable is a
function of the history.

* `Meets P h`: every step of the history satisfies `P`.
* `Run.invariant`: what one step preserves, a run preserves.
* `Outline.run`: **rely-guarantee soundness.** If each operation is `Safe` and each
  thread's own steps are within the other threads' `rely`, then in every run every
  thread stays safe, and an idle one satisfies its assertion.
* `SeqOutline.run`: the same when operations run one at a time.
* `Player.play_run`: a schedule that plays is a run.
-/

namespace SsdCache.Atomic

/-- What happened in a step: a thread started an operation, performed an action
and got an answer, or the environment moved. -/
inductive Label (S : Sig) (ε T C : Type) : Type
  | call (t : T) (o : C)
  | act (t : T) (a : S.Act) (r : Except ε (S.Resp a))
  | env

/-- The world, and what each thread still has to do. -/
structure Config (S : Sig) (ε W T : Type) where
  world : W
  prog : T → Prog S ε Unit

/-- Every thread is idle. -/
def Config.idle {S : Sig} {ε W T : Type} (w : W) : Config S ε W T := ⟨w, fun _ => .ret ()⟩

section Become

variable {S : Sig} {ε W T : Type} [DecidableEq T]

/-- Thread `t` goes on with `p`, in world `w`. -/
def Config.become (c : Config S ε W T) (t : T) (w : W) (p : Prog S ε Unit) : Config S ε W T :=
  ⟨w, Function.update c.prog t p⟩

@[simp] theorem Config.become_self (c : Config S ε W T) (t : T) (w : W) (p : Prog S ε Unit) :
    (c.become t w p).prog t = p := Function.update_self ..

theorem Config.become_ne (c : Config S ε W T) {t u : T} (h : u ≠ t) (w : W) (p : Prog S ε Unit) :
    (c.become t w p).prog u = c.prog u := Function.update_of_ne h ..

end Become

/-- A machine: the operations' programs, which operation a thread may start, what
the atomic actions do, and how the environment moves the world. -/
structure Machine (S : Sig) (ε W T C : Type) where
  body : C → Prog S ε Unit
  menu : T → Config S ε W T → C → Prop
  exec : W → (a : S.Act) → Except ε (S.Resp a) → W → Prop
  env : W → W → Prop

/-- A history, newest step first, each step with the world before it. -/
abbrev Hist (S : Sig) (ε W T C : Type) : Type := List (W × Label S ε T C)

variable {S : Sig} {ε W T C : Type} [DecidableEq T]

/-- One step of a machine. -/
inductive Step (M : Machine S ε W T C) :
    Config S ε W T → Label S ε T C → Config S ε W T → Prop
  | call {c : Config S ε W T} {t : T} {o : C} : (c.prog t).Done → M.menu t c o →
      Step M c (.call t o) (c.become t c.world (M.body o))
  | act {c : Config S ε W T} {t : T} {a : S.Act} {k : Except ε (S.Resp a) → Prog S ε Unit}
      {r : Except ε (S.Resp a)} {w' : W} : c.prog t = .call a k → M.exec c.world a r w' →
      Step M c (.act t a r) (c.become t w' (k r))
  | env {c : Config S ε W T} {w' : W} : M.env c.world w' → Step M c .env ⟨w', c.prog⟩

/-- The runs of a machine from a configuration, with their histories. -/
inductive Run (M : Machine S ε W T C) (c₀ : Config S ε W T) :
    Hist S ε W T C → Config S ε W T → Prop
  | init : Run M c₀ [] c₀
  | step {h : Hist S ε W T C} {c c' : Config S ε W T} {l : Label S ε T C} : Run M c₀ h c →
      Step M c l c' → Run M c₀ ((c.world, l) :: h) c'

omit [DecidableEq T] in
/-- Every step of the history satisfies `P` (of the history before it, the world
before it and its label). -/
def Meets (P : Hist S ε W T C → W → Label S ε T C → Prop) : Hist S ε W T C → Prop
  | [] => True
  | (w, l) :: h => P h w l ∧ Meets P h

omit [DecidableEq T] in
instance Meets.decidable (P : Hist S ε W T C → W → Label S ε T C → Prop)
    [∀ h w l, Decidable (P h w l)] : (h : Hist S ε W T C) → Decidable (Meets P h)
  | [] => .isTrue trivial
  | (w, l) :: h =>
    have := Meets.decidable P h
    inferInstanceAs (Decidable (P h w l ∧ Meets P h))

omit [DecidableEq T] in
theorem meets_of_forall {P : Hist S ε W T C → W → Label S ε T C → Prop} (hP : ∀ h w l, P h w l) :
    ∀ h, Meets P h
  | [] => trivial
  | (w, l) :: h => ⟨hP h w l, meets_of_forall hP h⟩

omit [DecidableEq T] in
theorem Meets.mono {P Q : Hist S ε W T C → W → Label S ε T C → Prop}
    (hPQ : ∀ {h w l}, P h w l → Q h w l) : ∀ {h}, Meets P h → Meets Q h
  | [], _ => trivial
  | (_, _) :: _, hm => ⟨hPQ hm.1, hm.2.mono hPQ⟩

omit [DecidableEq T] in
theorem Meets.and {P Q : Hist S ε W T C → W → Label S ε T C → Prop} :
    ∀ {h}, Meets P h → Meets Q h → Meets (fun h w l => P h w l ∧ Q h w l) h
  | [], _, _ => trivial
  | (_, _) :: _, hP, hQ => ⟨⟨hP.1, hQ.1⟩, hP.2.and hQ.2⟩

omit [DecidableEq T] in
theorem meets_forall {ι : Type} {P : ι → Hist S ε W T C → W → Label S ε T C → Prop} :
    ∀ {h}, (∀ i, Meets (P i) h) → Meets (fun h w l => ∀ i, P i h w l) h
  | [], _ => trivial
  | (_, _) :: _, hP => ⟨fun i => (hP i).1, meets_forall fun i => (hP i).2⟩

omit [DecidableEq T] in
theorem Meets.congr {P Q : Hist S ε W T C → W → Label S ε T C → Prop} :
    ∀ {h}, Meets (fun h w l => P h w l ↔ Q h w l) h → (Meets P h ↔ Meets Q h)
  | [], _ => Iff.rfl
  | (_, _) :: _, hm => and_congr hm.1 hm.2.congr

variable {M : Machine S ε W T C} {c₀ c : Config S ε W T} {h : Hist S ε W T C}
variable {cond : Hist S ε W T C → W → Label S ε T C → Prop}

/-- A run goes on from where another one has ended. -/
theorem Run.append {late : Hist S ε W T C} {c' : Config S ε W T} (hrun : Run M c₀ h c)
    (hlate : Run M c late c') : Run M c₀ (late ++ h) c' := by
  induction hlate with
  | init => exact hrun
  | step _ hs ih => exact ih.step hs

/-- **What one step preserves, a run preserves.** -/
theorem Run.invariant {I : Hist S ε W T C → Config S ε W T → Prop} (h0 : I [] c₀)
    (hstep : ∀ {h c l c'}, I h c → cond h c.world l → Step M c l c' → I ((c.world, l) :: h) c')
    (hrun : Run M c₀ h c) : Meets cond h → I h c := by
  induction hrun with
  | init => exact fun _ => h0
  | step _ hs ih => exact fun hm => hstep (ih hm.2) hm.1 hs

/-- What holds wherever a run that meets `cond` ends, held in all its worlds. -/
theorem Run.throughout {J : Hist S ε W T C → W → Prop}
    (hJ : ∀ {h c}, Run M c₀ h c → Meets cond h → J h c.world) (hrun : Run M c₀ h c) :
    Meets cond h → Meets (fun h w _ => J h w) h := by
  induction hrun with
  | init => exact fun _ => trivial
  | step hr _ ih => exact fun hm => ⟨hJ hr hm.2, ih hm.2⟩

omit [DecidableEq T] in
/-- The thread that started an operation. -/
def Label.starter : Label S ε T C → Option T
  | .call t _ => some t
  | _ => none

/-- A thread that has started nothing is idle. -/
theorem Run.idle_of_not_started {w : W} {t : T} (hrun : Run M (.idle w) h c)
    (ht : t ∉ h.filterMap fun x => x.2.starter) : c.prog t = .ret () := by
  induction hrun with
  | init => rfl
  | @step h c c' l hrun hs ih =>
    cases hs with
    | @call u o hd hm =>
      simp only [List.filterMap_cons, Label.starter, List.mem_cons, not_or] at ht
      rw [Config.become_ne c ht.1]
      exact ih ht.2
    | @act u a k r w' hk hx =>
      have hidle : c.prog t = .ret () := ih ht
      by_cases htu : t = u
      · -- an idle thread does not act
        subst htu
        rw [hidle] at hk
        cases hk
      · rw [Config.become_ne c htu]
        exact hidle
    | env he => exact ih ht

/-- Thread `t`'s own steps on histories and worlds, among those that meet `cond`. -/
def Machine.next (M : Machine S ε W T C) (cond : Hist S ε W T C → W → Label S ε T C → Prop) (t : T)
    (x : Hist S ε W T C × W) (a : S.Act) (r : Except ε (S.Resp a)) (y : Hist S ε W T C × W) : Prop :=
  M.exec x.2 a r y.2 ∧ cond x.1 x.2 (.act t a r) ∧ y.1 = (x.2, .act t a r) :: x.1

/-- The contract of thread `t` with this `rely` and `keep`. -/
def Machine.contract (M : Machine S ε W T C) (cond : Hist S ε W T C → W → Label S ε T C → Prop)
    (t : T) (rely : Hist S ε W T C × W → Hist S ε W T C × W → Prop)
    (keep : Hist S ε W T C × W → (a : S.Act) → Except ε (S.Resp a) → Hist S ε W T C × W → Prop)
    (refl : ∀ x, rely x x) (trans : ∀ {x y z}, rely x y → rely y z → rely x z) :
    Contract S ε (Hist S ε W T C × W) where
  rely := rely
  step := M.next cond t
  keep := keep
  refl := refl
  trans := trans

omit [DecidableEq T] in
/-- The triple of one action, from the machine's own steps. -/
theorem Machine.triple {M : Machine S ε W T C} {cond : Hist S ε W T C → W → Label S ε T C → Prop}
    {t : T} {K : Contract S ε (Hist S ε W T C × W)} {P : Hist S ε W T C × W → Prop} {a : S.Act}
    {R : Except ε (S.Resp a) → Hist S ε W T C × W → Prop} (hK : K.step = M.next cond t)
    (hP : K.Stable P)
    (hexec : ∀ {h w r w'}, M.exec w a r w' → cond h w (.act t a r) → P (h, w) →
      K.keep (h, w) a r ((w, .act t a r) :: h, w') ∧ R r ((w, .act t a r) :: h, w')) :
    K.Triple P a R where
  stable := hP
  step {y r z} hy hs := by
    obtain ⟨h, w⟩ := y
    obtain ⟨h', w'⟩ := z
    rw [hK] at hs
    obtain ⟨hx, hc, hz⟩ := hs
    cases hz
    exact hexec hx hc hy

/-! ## Rely-guarantee -/

/-- A proof outline: a contract for each thread whose steps are the thread's own,
such that no thread and no move of the environment leaves another thread's
`rely`, and every operation started in the idle assertion is safe and ends in it. -/
structure Outline (M : Machine S ε W T C)
    (cond : Hist S ε W T C → W → Label S ε T C → Prop) where
  contract : T → Contract S ε (Hist S ε W T C × W)
  idle : T → Hist S ε W T C × W → Prop
  step_eq : ∀ t, (contract t).step = M.next cond t
  stable : ∀ t, (contract t).Stable (idle t)
  act : ∀ {t u x a r y}, t ≠ u → M.next cond t x a r y → (contract t).keep x a r y →
    (contract u).rely x y
  call : ∀ {t u h w o}, t ≠ u → (contract u).rely (h, w) ((w, .call t o) :: h, w)
  env : ∀ {t h w w'}, M.env w w' → cond h w .env → (contract t).rely (h, w) ((w, .env) :: h, w')
  body : ∀ {t h c o}, M.menu t c o → cond h c.world (.call t o) → idle t (h, c.world) →
    (M.body o).Safe (contract t) (fun _ => idle t) ((c.world, .call t o) :: h, c.world)

/-- Every thread is safe in the configuration reached. -/
def Outline.Holds (O : Outline M cond) (h : Hist S ε W T C) (c : Config S ε W T) : Prop :=
  ∀ t, (c.prog t).Safe (O.contract t) (fun _ => O.idle t) (h, c.world)

omit [DecidableEq T] in
theorem Outline.holds_idle (O : Outline M cond) {w : W} (h0 : ∀ t, O.idle t ([], w)) :
    O.Holds [] (.idle w) := fun t _ hr => O.stable t hr (h0 t)

omit [DecidableEq T] in
/-- The next action of a thread keeps its contract, and the thread stays safe. -/
theorem Outline.own (O : Outline M cond) {t : T} {a : S.Act} {k : Except ε (S.Resp a) → Prog S ε Unit}
    {r : Except ε (S.Resp a)} {w' : W} (hI : O.Holds h c) (hk : c.prog t = .call a k)
    (hx : M.exec c.world a r w') (hc : cond h c.world (.act t a r)) :
    (O.contract t).keep (h, c.world) a r ((c.world, .act t a r) :: h, w') ∧
      (k r).Safe (O.contract t) (fun _ => O.idle t) ((c.world, .act t a r) :: h, w') := by
  have ht : (Prog.call a k).Safe (O.contract t) (fun _ => O.idle t) (h, c.world) := hk ▸ hI t
  have hstep : (O.contract t).step (h, c.world) a r ((c.world, .act t a r) :: h, w') := by
    rw [O.step_eq]
    exact ⟨hx, hc, rfl⟩
  exact ht.next hstep

/-- **One step keeps every thread safe.** -/
theorem Outline.step (O : Outline M cond) {l : Label S ε T C} {c' : Config S ε W T}
    (hI : O.Holds h c) (hc : cond h c.world l) (hs : Step M c l c') :
    O.Holds ((c.world, l) :: h) c' := by
  intro u
  cases hs with
  | @call t o hd hm =>
    by_cases hut : u = t
    · -- the thread was idle, so its idle assertion holds
      subst hut
      obtain ⟨-, hidle⟩ := (hI u).done hd
      rw [Config.become_self]
      exact O.body hm hc hidle
    · rw [Config.become_ne c hut]
      exact Prog.safe_stable (O.call (Ne.symm hut)) (hI u)
  | @act t a k r w' hk hx =>
    obtain ⟨hkeep, hrest⟩ := O.own hI hk hx hc
    by_cases hut : u = t
    · subst hut
      rw [Config.become_self]
      exact hrest
    · -- what `t` keeps is what `u` relies on
      have hrely : (O.contract u).rely (h, c.world) ((c.world, .act t a r) :: h, w') :=
        O.act (Ne.symm hut) ⟨hx, hc, rfl⟩ hkeep
      rw [Config.become_ne c hut]
      exact Prog.safe_stable hrely (hI u)
  | env he => exact Prog.safe_stable (O.env he hc) (hI u)

/-- **Rely-guarantee soundness.** -/
theorem Outline.run (O : Outline M cond) {w : W} (h0 : ∀ t, O.idle t ([], w))
    (hrun : Run M (.idle w) h c) (hm : Meets cond h) : O.Holds h c :=
  hrun.invariant (O.holds_idle h0) O.step hm

/-- An idle thread's assertion holds in every configuration reached. -/
theorem Outline.idle_of_run (O : Outline M cond) {w : W} (h0 : ∀ t, O.idle t ([], w))
    (hrun : Run M (.idle w) h c) (hm : Meets cond h) {t : T} (hd : (c.prog t).Done) :
    O.idle t (h, c.world) := by
  obtain ⟨-, hidle⟩ := (O.run h0 hrun hm t).done hd
  exact hidle

/-- Every action performed meets the `keep` of its thread's contract. -/
theorem Outline.keep_of_run (O : Outline M cond) {w : W} (h0 : ∀ t, O.idle t ([], w))
    (hrun : Run M (.idle w) h c) (hm : Meets cond h) {t : T} {a : S.Act} {r : Except ε (S.Resp a)}
    {c' : Config S ε W T} (hc : cond h c.world (.act t a r)) (hs : Step M c (.act t a r) c') :
    (O.contract t).keep (h, c.world) a r ((c.world, .act t a r) :: h, c'.world) := by
  cases hs with
  | act hk hx =>
    obtain ⟨hkeep, -⟩ := O.own (O.run h0 hrun hm) hk hx hc
    exact hkeep

/-- Fewer operations on the menu make fewer runs. -/
theorem Run.mono_menu {menu : T → Config S ε W T → C → Prop}
    (hmenu : ∀ {t c o}, menu t c o → M.menu t c o) (hrun : Run { M with menu } c₀ h c) :
    Run M c₀ h c := by
  induction hrun with
  | init => exact .init
  | step _ hs ih =>
    refine ih.step ?_
    cases hs with
    | call hd hm => exact .call hd (hmenu hm)
    | act hk hx => exact .act hk hx
    | env he => exact .env he

/-! ## One thread against the rest -/

/-- A proof outline for one thread `t₀` whose assertions survive every `quiet` move;
all the others make quiet moves only. -/
structure Solo (M : Machine S ε W T C) (cond : Hist S ε W T C → W → Label S ε T C → Prop)
    (t₀ : T) where
  quiet : Hist S ε W T C × W → Hist S ε W T C × W → Prop
  keep : Hist S ε W T C × W → (a : S.Act) → Except ε (S.Resp a) → Hist S ε W T C × W → Prop
  refl : ∀ x, quiet x x
  trans : ∀ {x y z}, quiet x y → quiet y z → quiet x z
  inv : Hist S ε W T C × W → Prop
  stable : ∀ {x y}, quiet x y → inv x → inv y
  call : ∀ {t h w o}, t ≠ t₀ → quiet (h, w) ((w, .call t o) :: h, w)
  env : ∀ {h w w'}, M.env w w' → cond h w .env → quiet (h, w) ((w, .env) :: h, w')
  allowed : T → S.Act → Prop
  others : ∀ {t c o}, t ≠ t₀ → M.menu t c o → (M.body o).Only (allowed t)
  quiet_others : ∀ {t x a r y}, t ≠ t₀ → allowed t a → M.next cond t x a r y → quiet x y
  body : ∀ {h c o}, M.menu t₀ c o → cond h c.world (.call t₀ o) → inv (h, c.world) →
    (M.body o).Safe (M.contract cond t₀ quiet keep refl trans) (fun _ => inv)
      ((c.world, .call t₀ o) :: h, c.world)

namespace Solo

variable {t₀ : T} (O : Solo M cond t₀)

/-- The outline of all threads. -/
def outline : Outline M cond where
  contract t := M.contract cond t (fun x y => t = t₀ → O.quiet x y)
    (fun x a r y => if t = t₀ then O.keep x a r y else O.quiet x y ∧ O.allowed t a)
    (fun x _ => O.refl x)
    (fun hxy hyz ht => O.trans (hxy ht) (hyz ht))
  idle t x := t = t₀ → O.inv x
  step_eq _ := rfl
  stable _ _ _ hr hi ht := O.stable (hr ht) (hi ht)
  act {t u x a r y} htu _ hk hu := by
    have htne : t ≠ t₀ := fun ht => htu (ht.trans hu.symm)
    simp only [Machine.contract, if_neg htne] at hk
    exact hk.1
  call htu hu := O.call fun ht => htu (ht.trans hu.symm)
  env he hc _ := O.env he hc
  body {t h c o} hm hc hidle := by
    by_cases ht : t = t₀
    · -- `t₀` itself: its contract in `O` is the one here
      subst ht
      refine Prog.safe_contract ?_ ?_ ?_ ?_ (O.body hm hc (hidle rfl))
      · exact fun hr => hr rfl
      · exact id
      · exact fun hk => (if_pos rfl).mpr hk
      · exact fun _ _ hi _ => hi
    · -- another thread asks allowed actions only, and these are quiet
      refine Prog.safe_mono (fun _ _ _ heq => absurd heq ht)
        ((O.others ht hm).safe (I := fun _ => True) (fun _ _ _ h => h) ?_ trivial)
      intro y a r z ha _ hz
      exact ⟨(if_neg ht).mpr ⟨O.quiet_others ht ha hz, ha⟩, trivial⟩

/-- **Whenever `t₀` is idle, its invariant holds.** -/
theorem inv_of_run {w : W} (h0 : O.inv ([], w)) (hrun : Run M (.idle w) h c) (hm : Meets cond h)
    (hd : (c.prog t₀).Done) : O.inv (h, c.world) :=
  O.outline.idle_of_run (fun _ _ => h0) hrun hm hd rfl

/-- Every action of `t₀` meets `keep`. -/
theorem keep_of_run {w : W} (h0 : O.inv ([], w)) (hrun : Run M (.idle w) h c) (hm : Meets cond h)
    {a : S.Act} {r : Except ε (S.Resp a)} {c' : Config S ε W T} (hc : cond h c.world (.act t₀ a r))
    (hs : Step M c (.act t₀ a r) c') :
    O.keep (h, c.world) a r ((c.world, .act t₀ a r) :: h, c'.world) :=
  (if_pos rfl).mp (O.outline.keep_of_run (fun _ _ => h0) hrun hm hc hs)

/-- Every action of the others is quiet and allowed. -/
theorem quiet_of_run {w : W} (h0 : O.inv ([], w)) (hrun : Run M (.idle w) h c) (hm : Meets cond h)
    {t : T} (ht : t ≠ t₀) {a : S.Act} {r : Except ε (S.Resp a)} {c' : Config S ε W T}
    (hc : cond h c.world (.act t a r)) (hs : Step M c (.act t a r) c') :
    O.quiet (h, c.world) ((c.world, .act t a r) :: h, c'.world) ∧ O.allowed t a :=
  (if_neg ht).mp (O.outline.keep_of_run (fun _ _ => h0) hrun hm hc hs)

/-- What `keep` and `allowed` say of the actions holds throughout a run. -/
theorem meets_of_run {P : Hist S ε W T C → W → Label S ε T C → Prop}
    (hact : ∀ {h w a r y}, O.keep (h, w) a r y → P h w (.act t₀ a r))
    (hothers : ∀ {t h w a r}, t ≠ t₀ → O.allowed t a → P h w (.act t a r))
    (hcall : ∀ {t h w o}, P h w (.call t o)) (henv : ∀ {h w}, P h w .env) {w : W}
    (h0 : O.inv ([], w)) (hrun : Run M (.idle w) h c) (hm : Meets cond h) : Meets P h := by
  induction hrun with
  | init => trivial
  | @step h c c' l hrun hs ih =>
    refine ⟨?_, ih hm.2⟩
    cases l with
    | call t o => exact hcall
    | act t a r =>
      by_cases ht : t = t₀
      · subst ht
        exact hact (O.keep_of_run h0 hrun hm.2 hm.1 hs)
      · exact hothers ht (O.quiet_of_run h0 hrun hm.2 ht hm.1 hs).2
    | env => exact henv

end Solo

/-! ## One operation at a time -/

/-- A proof outline for a machine that starts an operation only when every thread
is idle: one invariant between operations, and a contract for the running thread. -/
structure SeqOutline (M : Machine S ε W T C)
    (cond : Hist S ε W T C → W → Label S ε T C → Prop) where
  contract : T → Contract S ε (Hist S ε W T C × W)
  inv : Hist S ε W T C × W → Prop
  step_eq : ∀ t, (contract t).step = M.next cond t
  alone : ∀ {t c o}, M.menu t c o → ∀ u, (c.prog u).Done
  stable : ∀ t, (contract t).Stable inv
  env : ∀ {t h w w'}, M.env w w' → cond h w .env → (contract t).rely (h, w) ((w, .env) :: h, w')
  body : ∀ {t h c o}, M.menu t c o → cond h c.world (.call t o) → inv (h, c.world) →
    (M.body o).Safe (contract t) (fun _ => inv) ((c.world, .call t o) :: h, c.world)

/-- At most one thread is busy, and it is safe. -/
def SeqOutline.Holds (O : SeqOutline M cond) (h : Hist S ε W T C) (c : Config S ε W T) : Prop :=
  ∃ t, (∀ u, u ≠ t → (c.prog u).Done) ∧
    (c.prog t).Safe (O.contract t) (fun _ => O.inv) (h, c.world)

/-- An action is one of the running operation: it keeps the contract, and the operation
stays safe. -/
theorem SeqOutline.own (O : SeqOutline M cond) {t u : T} {a : S.Act}
    {k : Except ε (S.Resp a) → Prog S ε Unit} {r : Except ε (S.Resp a)} {w' : W}
    (hothers : ∀ v, v ≠ t → (c.prog v).Done)
    (ht : (c.prog t).Safe (O.contract t) (fun _ => O.inv) (h, c.world)) (hk : c.prog u = .call a k)
    (hx : M.exec c.world a r w') (hc : cond h c.world (.act u a r)) :
    u = t ∧ (O.contract u).keep (h, c.world) a r ((c.world, .act u a r) :: h, w') ∧
      (k r).Safe (O.contract u) (fun _ => O.inv) ((c.world, .act u a r) :: h, w') := by
  have hut : u = t := by
    by_contra hne
    have hdone : (c.prog u).Done := hothers u hne
    rw [hk] at hdone
    exact Prog.not_done_call a k hdone
  subst hut
  rw [hk] at ht
  have hstep : (O.contract u).step (h, c.world) a r ((c.world, .act u a r) :: h, w') := by
    rw [O.step_eq]
    exact ⟨hx, hc, rfl⟩
  exact ⟨rfl, ht.next hstep⟩

/-- **One step keeps the running operation safe.** -/
theorem SeqOutline.step (O : SeqOutline M cond) {l : Label S ε T C} {c' : Config S ε W T}
    (hI : O.Holds h c) (hc : cond h c.world l) (hs : Step M c l c') :
    O.Holds ((c.world, l) :: h) c' := by
  obtain ⟨t, hothers, ht⟩ := hI
  cases hs with
  | @call u o hd hm =>
    -- an operation starts when all threads are idle, so the last one has ended
    have hall : ∀ v, (c.prog v).Done := O.alone hm
    obtain ⟨-, hinv⟩ := ht.done (hall t)
    refine ⟨u, fun v hv => ?_, ?_⟩
    · rw [Config.become_ne c hv]; exact hall v
    · rw [Config.become_self]; exact O.body hm hc hinv
  | @act u a k r w' hk hx =>
    obtain ⟨rfl, -, hrest⟩ := O.own hothers ht hk hx hc
    refine ⟨u, fun v hv => ?_, ?_⟩
    · rw [Config.become_ne c hv]; exact hothers v hv
    · rw [Config.become_self]; exact hrest
  | env he => exact ⟨t, hothers, Prog.safe_stable (O.env he hc) ht⟩

/-- **Soundness of sequential outlines.** -/
theorem SeqOutline.run [Inhabited T] (O : SeqOutline M cond) {w : W} (h0 : O.inv ([], w))
    (hrun : Run M (.idle w) h c) (hm : Meets cond h) : O.Holds h c := by
  have hidle : O.Holds [] (.idle w) :=
    ⟨default, fun _ _ => Prog.done_ret (), fun _ hr => O.stable default hr h0⟩
  exact hrun.invariant hidle O.step hm

/-- Between operations the invariant holds. -/
theorem SeqOutline.inv_of_run [Inhabited T] (O : SeqOutline M cond) {w : W} (h0 : O.inv ([], w))
    (hrun : Run M (.idle w) h c) (hm : Meets cond h) (hd : ∀ t, (c.prog t).Done) :
    O.inv (h, c.world) := by
  obtain ⟨t, -, ht⟩ := O.run h0 hrun hm
  obtain ⟨-, hinv⟩ := ht.done (hd t)
  exact hinv

/-- Every action performed meets the `keep` of its thread's contract. -/
theorem SeqOutline.keep_of_run [Inhabited T] (O : SeqOutline M cond) {w : W} (h0 : O.inv ([], w))
    (hrun : Run M (.idle w) h c) (hm : Meets cond h) {t : T} {a : S.Act} {r : Except ε (S.Resp a)}
    {c' : Config S ε W T} (hc : cond h c.world (.act t a r)) (hs : Step M c (.act t a r) c') :
    (O.contract t).keep (h, c.world) a r ((c.world, .act t a r) :: h, c'.world) := by
  obtain ⟨u, hothers, hu⟩ := O.run h0 hrun hm
  cases hs with
  | act hk hx =>
    obtain ⟨-, hkeep, -⟩ := O.own hothers hu hk hx hc
    exact hkeep

/-- What `keep` says of the actions holds throughout a run. -/
theorem SeqOutline.meets_of_run [Inhabited T] (O : SeqOutline M cond)
    {P : Hist S ε W T C → W → Label S ε T C → Prop}
    (hact : ∀ {t h w a r y}, (O.contract t).keep (h, w) a r y → P h w (.act t a r))
    (hcall : ∀ {t h c o}, M.menu t c o → P h c.world (.call t o)) (henv : ∀ {h w}, P h w .env)
    {w : W} (h0 : O.inv ([], w)) (hrun : Run M (.idle w) h c) (hm : Meets cond h) : Meets P h := by
  induction hrun with
  | init => trivial
  | @step h c c' l hrun hs ih =>
    refine ⟨?_, ih hm.2⟩
    cases l with
    | call t o =>
      cases hs with
      | call hd hmenu => exact hcall hmenu
    | act t a r => exact hact (O.keep_of_run h0 hrun hm.2 hm.1 hs)
    | env => exact henv

/-! ## Playing a schedule -/

/-- A move of a schedule. -/
inductive Move (T C E : Type) : Type
  | call (t : T) (o : C)
  | act (t : T)
  | env (e : E)

/-- One legal answer for every action that is possible, and decision procedures for
the menu and the environment: enough to execute schedules. -/
structure Player (M : Machine S ε W T C) (E : Type) where
  act : W → (a : S.Act) → Option (Except ε (S.Resp a) × W)
  env : E → W → W
  menu : T → Config S ε W T → C → Bool
  envOk : E → W → Bool
  act_ok : ∀ {w a r w'}, act w a = some (r, w') → M.exec w a r w'
  menu_ok : ∀ {t c o}, menu t c o = true → M.menu t c o
  env_ok : ∀ {e w}, envOk e w = true → M.env w (env e w)

/-- Execute one move; `none` when it is not possible. -/
def Player.move {E : Type} (P : Player M E) (m : Move T C E)
    (x : Hist S ε W T C × Config S ε W T) : Option (Hist S ε W T C × Config S ε W T) :=
  match m with
  | .call t o =>
    if (x.2.prog t).Done ∧ P.menu t x.2 o = true then
      some ((x.2.world, .call t o) :: x.1, x.2.become t x.2.world (M.body o))
    else none
  | .act t =>
    match x.2.prog t with
    | .call a k => (P.act x.2.world a).map fun y =>
      ((x.2.world, .act t a y.1) :: x.1, x.2.become t y.2 (k y.1))
    | _ => none
  | .env e =>
    if P.envOk e x.2.world = true then
      some ((x.2.world, .env) :: x.1, ⟨P.env e x.2.world, x.2.prog⟩)
    else none

/-- Execute a schedule. -/
def Player.play {E : Type} (P : Player M E) : List (Move T C E) →
    Hist S ε W T C × Config S ε W T → Option (Hist S ε W T C × Config S ε W T)
  | [], x => some x
  | m :: ms, x => (P.move m x).bind (P.play ms)

/-- A move that is possible is a step of the machine. -/
theorem Player.move_step {E : Type} {P : Player M E} {m : Move T C E}
    {x y : Hist S ε W T C × Config S ε W T} (hm : P.move m x = some y) :
    ∃ l, Step M x.2 l y.2 ∧ y.1 = (x.2.world, l) :: x.1 := by
  cases m with
  | call t o =>
    simp only [Player.move] at hm
    split at hm
    · rename_i hok
      cases hm
      exact ⟨_, .call hok.1 (P.menu_ok hok.2), rfl⟩
    · cases hm
  | act t =>
    simp only [Player.move] at hm
    split at hm
    · rename_i a k hk
      rw [Option.map_eq_some_iff] at hm
      obtain ⟨⟨r, w'⟩, hact, rfl⟩ := hm
      exact ⟨_, .act hk (P.act_ok hact), rfl⟩
    · cases hm
  | env e =>
    simp only [Player.move] at hm
    split at hm
    · rename_i hok
      cases hm
      exact ⟨_, .env (P.env_ok hok), rfl⟩
    · cases hm

/-- **A schedule that plays is a run.** -/
theorem Player.play_run {E : Type} {P : Player M E} {ms : List (Move T C E)} :
    ∀ {x y : Hist S ε W T C × Config S ε W T}, Run M c₀ x.1 x.2 → P.play ms x = some y →
      Run M c₀ y.1 y.2 := by
  induction ms with
  | nil => intro x y hx hp; cases hp; exact hx
  | cons m ms ih =>
    intro x y hx hp
    simp only [Player.play, Option.bind_eq_some_iff] at hp
    obtain ⟨z, hz, hp⟩ := hp
    obtain ⟨l, hs, hh⟩ := P.move_step hz
    exact ih (hh ▸ .step hx hs) hp

/-- A schedule that plays to a state with property `p` shows a run to such a state. -/
theorem Player.exists_run {E : Type} (P : Player M E) (ms : List (Move T C E))
    (p : Hist S ε W T C × Config S ε W T → Prop) [DecidablePred p]
    (hp : (P.play ms ([], c₀)).any (fun x => decide (p x)) = true) :
    ∃ h c, Run M c₀ h c ∧ p (h, c) := by
  rw [Option.any_eq_true_iff_get] at hp
  obtain ⟨hs, hp⟩ := hp
  obtain ⟨y, hy⟩ := Option.isSome_iff_exists.1 hs
  rw [Option.get_of_eq_some _ hy] at hp
  exact ⟨y.1, y.2, P.play_run .init hy, of_decide_eq_true hp⟩

end SsdCache.Atomic
