import SsdCache.Atomic.Sum

/-!
# Refinement between machines

A fine machine refines a coarse one when every run of the fine one is seen from outside as
a run of the coarse one. `Simulation.Tracks` is the judgement for one thread: while the
others move the fine world along `rely`, each action of a fine program is no action of the
coarse program or one of them. The answer of a coarse action may be decided only by later
fine actions. The coarse thread then goes on under a **guess** of it: a thread tracks a
coarse program for every guess, and an action that decides the answer keeps the guesses
that were right. What the coarse world is ahead by, the thread **owes** (`Debts`).

* `tracks_bind`, `tracks_tryCatch`, `tracks_ensuring`, `tracks_perform`: rules for the ways to
  put programs together.
* `tracks_expand`: if the program put in place of each action tracks it, an
  expanded program tracks the original.
* `Simulation.run`: **soundness.** If every operation tracks its coarse one, each run of the
  fine machine has a run of the coarse one that shows the same.
-/

namespace SsdCache.Atomic

variable {S S' : Sig} {ε W W' T C G D O α β : Type}

/-- How the worlds of two machines are related, and what the threads of the fine one rely
on. `G` are the guesses, `D` what a thread can owe, `O` what an action shows. -/
structure Simulation (M' : Machine S' ε W' T C) (M : Machine S ε W T C) (G D O : Type) where
  inv : W' → Prop
  rely : T → W' → W' → Prop
  refl : ∀ t x, rely t x x
  trans : ∀ {t x y z}, rely t x y → rely t y z → rely t x z
  settled : D
  rel : W' → (T → D) → W → Prop
  seen' : (b : S'.Act) → Except ε (S'.Resp b) → Option O
  seen : (a : S.Act) → Except ε (S.Resp a) → Option O
  /-- how an action may change what its thread owes -/
  owes : (b : S'.Act) → Except ε (S'.Resp b) → D → D → Prop
  /-- the steps that are considered -/
  cond : W' → Label S' ε T C → Prop

/-- What a step shows: the start of an operation, or what its action shows. -/
def Label.shows (seen : (a : S.Act) → Except ε (S.Resp a) → Option O) :
    Label S ε T C → Option (T × C ⊕ T × O)
  | .call t o => some (.inl (t, o))
  | .act t a r => (seen a r).map fun x => .inr (t, x)
  | .env => none

/-- What a history shows. -/
def shown (seen : (a : S.Act) → Except ε (S.Resp a) → Option O) (h : Hist S ε W T C) :
    List (T × C ⊕ T × O) :=
  h.filterMap fun x => x.2.shows seen

theorem shown_cons (seen : (a : S.Act) → Except ε (S.Resp a) → Option O) (w : W)
    (l : Label S ε T C) (h : Hist S ε W T C) :
    shown seen ((w, l) :: h) = (l.shows seen).toList ++ shown seen h := by
  unfold shown
  rw [List.filterMap_cons]
  cases l.shows seen with
  | none => rfl
  | some x => rfl

/-- The program that ends with `r`. -/
def Prog.ofResult : Except ε α → Prog S ε α
  | .ok v => .ret v
  | .error e => .throw e

theorem Prog.done_ofResult (r : Except ε α) : (Prog.ofResult r : Prog S ε α).Done := by
  cases r with
  | ok v => trivial
  | error e => trivial

namespace Simulation

variable {M' : Machine S' ε W' T C} {M : Machine S ε W T C} [DecidableEq T]
variable (K : Simulation M' M G D O)

/-- One action of thread `t`, as its coarse program and debt `s` become `s'`: the coarse
thread stays where it is, or performs one action. -/
def Moves (t : T) (y : W') (b : S'.Act) (r : Except ε (S'.Resp b)) (z : W')
    (s s' : Prog S ε Unit × D) : Prop :=
  K.owes b r s.2 s'.2 ∧ ∀ ds w, ds t = s.2 → K.rel y ds w →
    (s'.1 = s.1 ∧ K.seen' b r = none ∧ K.rel z (Function.update ds t s'.2) w) ∨
    ∃ a k x w', s.1 = .call a k ∧ s'.1 = k x ∧ M.exec w a x w' ∧
      K.rel z (Function.update ds t s'.2) w' ∧ K.seen' b r = K.seen a x

/-- **The judgement.** From the fine world `x`, thread `t` running the fine program tracks
the coarse program and debt that `f` tells for each guess, and ends in `Q`. -/
def Tracks (t : T) (Q : Except ε α → (G → Prog S ε Unit × D) → W' → Prop) :
    Prog S' ε α → (G → Prog S ε Unit × D) → W' → Prop
  | .ret v, f, x => ∀ y, K.rely t x y → Q (.ok v) f y
  | .throw e, f, x => ∀ y, K.rely t x y → Q (.error e) f y
  | .call b k, f, x => ∀ y, K.rely t x y → K.inv y → ∀ r z, M'.exec y b r z →
      K.cond y (.act t b r) → K.inv z ∧ (∀ u, u ≠ t → K.rely u y z) ∧
        ∃ f' : G → Prog S ε Unit × D, (∀ g', ∃ g, K.Moves t y b r z (f g) (f' g')) ∧
          Tracks t Q (k r) f' z

variable {K} {t : T} {f : G → Prog S ε Unit × D} {x : W'}
variable {Q Q' : Except ε α → (G → Prog S ε Unit × D) → W' → Prop}

/-- The others' moves keep a thread on its track. -/
theorem tracks_stable {c : Prog S' ε α} {y : W'} (hr : K.rely t x y) (h : K.Tracks t Q c f x) :
    K.Tracks t Q c f y := by
  cases c with
  | ret v => exact fun z hz => h z (K.trans hr hz)
  | throw e => exact fun z hz => h z (K.trans hr hz)
  | call b k => exact fun z hz => h z (K.trans hr hz)

theorem tracks_mono (hQ : ∀ r f x, Q r f x → Q' r f x) {c : Prog S' ε α} :
    ∀ {f x}, K.Tracks t Q c f x → K.Tracks t Q' c f x := by
  induction c with
  | ret v => exact fun h y hy => hQ _ _ _ (h y hy)
  | throw e => exact fun h y hy => hQ _ _ _ (h y hy)
  | call b k ih =>
    intro f x h y hy hinv r z hx hc
    obtain ⟨hz, hothers, f', hf', hrest⟩ := h y hy hinv r z hx hc
    exact ⟨hz, hothers, f', hf', ih r hrest⟩

/-- What a part has to end in before the rest of the program goes on. -/
def thenTracks (K : Simulation M' M G D O) (t : T)
    (Q : Except ε β → (G → Prog S ε Unit × D) → W' → Prop) (d : Except ε α → Prog S' ε β)
    (r : Except ε α) (f : G → Prog S ε Unit × D) (x : W') : Prop :=
  K.Tracks t Q (d r) f x

/-- **One part, then the rest**, which takes the part's value or exception. -/
theorem tracks_attempt {Q : Except ε β → (G → Prog S ε Unit × D) → W' → Prop} {c : Prog S' ε α}
    {d : Except ε α → Prog S' ε β} :
    ∀ {f x}, K.Tracks t (K.thenTracks t Q d) c f x → K.Tracks t Q (c.attempt.bind d) f x := by
  induction c with
  | ret v => exact fun {f x} h => h x (K.refl t x)
  | throw e => exact fun {f x} h => h x (K.refl t x)
  | call b k ih =>
    intro f x h y hy hinv r z hx hc
    obtain ⟨hz, hothers, f', hf', hrest⟩ := h y hy hinv r z hx hc
    exact ⟨hz, hothers, f', hf', ih r hrest⟩

/-- **Sequencing.** -/
theorem tracks_bind {Q : Except ε β → (G → Prog S ε Unit × D) → W' → Prop} {c : Prog S' ε α}
    {d : α → Prog S' ε β} :
    ∀ {f x}, K.Tracks t (K.thenTracks t Q fun r => (Prog.ofResult r).bind d) c f x →
      K.Tracks t Q (c.bind d) f x := by
  induction c with
  | ret v => exact fun {f x} h => h x (K.refl t x)
  | throw e => exact fun {f x} h => h x (K.refl t x)
  | call b k ih =>
    intro f x h y hy hinv r z hx hc
    obtain ⟨hz, hothers, f', hf', hrest⟩ := h y hy hinv r z hx hc
    exact ⟨hz, hothers, f', hf', ih r hrest⟩

/-- **Exception handling.** -/
theorem tracks_tryCatch {c : Prog S' ε α} {d : ε → Prog S' ε α} :
    ∀ {f x}, K.Tracks t (K.thenTracks t Q fun r => (Prog.ofResult r).tryCatch d) c f x →
      K.Tracks t Q (c.tryCatch d) f x := by
  induction c with
  | ret v => exact fun {f x} h => h x (K.refl t x)
  | throw e => exact fun {f x} h => h x (K.refl t x)
  | call b k ih =>
    intro f x h y hy hinv r z hx hc
    obtain ⟨hz, hothers, f', hf', hrest⟩ := h y hy hinv r z hx hc
    exact ⟨hz, hothers, f', hf', ih r hrest⟩

/-- **Cleaning up.** -/
theorem tracks_ensuring {c : Prog S' ε α} {d : Prog S' ε Unit} :
    ∀ {f x}, K.Tracks t (K.thenTracks t Q fun r => d.bind fun _ => .ofResult r) c f x →
      K.Tracks t Q (c.ensuring d) f x := by
  induction c with
  | ret v => exact fun {f x} h => h x (K.refl t x)
  | throw e => exact fun {f x} h => h x (K.refl t x)
  | call b k ih =>
    intro f x h y hy hinv r z hx hc
    obtain ⟨hz, hothers, f', hf', hrest⟩ := h y hy hinv r z hx hc
    exact ⟨hz, hothers, f', hf', ih r hrest⟩

/-- An assertion that the other threads' moves preserve. -/
def Stable (K : Simulation M' M G D O) (t : T) (P : W' → Prop) : Prop :=
  ∀ ⦃x y⦄, K.rely t x y → P x → P y

/-- **One action** from `P`. -/
theorem tracks_perform {P : W' → Prop} {b : S'.Act}
    {Q : Except ε (S'.Resp b) → (G → Prog S ε Unit × D) → W' → Prop} (hP : K.Stable t P)
    (hQ : ∀ r f, K.Stable t (Q r f)) (hx : P x)
    (hstep : ∀ {y r z}, P y → K.inv y → M'.exec y b r z → K.cond y (.act t b r) →
      K.inv z ∧ (∀ u, u ≠ t → K.rely u y z) ∧
        ∃ f' : G → Prog S ε Unit × D, (∀ g', ∃ g, K.Moves t y b r z (f g) (f' g')) ∧ Q r f' z) :
    K.Tracks t Q (.perform b) f x := by
  intro y hy hinv r z hexec hc
  obtain ⟨hz, hothers, f', hf', hend⟩ := hstep (hP hy hx) hinv hexec hc
  refine ⟨hz, hothers, f', hf', ?_⟩
  cases r with
  | ok v => exact fun u hu => hQ _ _ hu hend
  | error e => exact fun u hu => hQ _ _ hu hend

/-- The end of a part that stands for one action: the coarse program has its answer, and
nothing is owed. -/
def Answered (K : Simulation M' M G D O) (k : Except ε α → Prog S ε Unit) (r : Except ε α)
    (f : G → Prog S ε Unit × D) (_ : W') : Prop :=
  f = fun _ => (k r, K.settled)

/-- The program `c` stands for the coarse action `a` of thread `t`. -/
def Implements (K : Simulation M' M G D O) (t : T) (a : S.Act) (c : Prog S' ε (S.Resp a)) : Prop :=
  ∀ (k : Except ε (S.Resp a) → Prog S ε Unit) x,
    K.Tracks t (K.Answered k) c (fun _ => (.call a k, K.settled)) x

/-- **Programs in place of actions**: the expanded program tracks the original. -/
theorem tracks_expand {A : S.Act → Prop} {impl : (a : S.Act) → Prog S' ε (S.Resp a)}
    (himpl : ∀ a, A a → K.Implements t a (impl a)) {p : Prog S ε Unit} :
    ∀ {x}, p.Only A →
      K.Tracks t (K.Answered Prog.ofResult) (p.expand impl) (fun _ => (p, K.settled)) x := by
  induction p with
  | ret v => exact fun _ _ _ => rfl
  | throw e => exact fun _ _ _ => rfl
  | call a k ih =>
    intro x hp
    refine tracks_attempt (tracks_mono (fun r f y hf => ?_) (himpl a hp.1 k x))
    subst hf
    exact ih r (hp.2 r)

/-! ## Runs -/

/-- What the threads may owe after a history. -/
def Debts (K : Simulation M' M G D O) : Hist S' ε W' T C → (T → D) → Prop
  | [], ds => ds = fun _ => K.settled
  | (_, .act t b r) :: h, ds =>
    ∃ ds₀ d, K.Debts h ds₀ ∧ K.owes b r (ds₀ t) d ∧ ds = Function.update ds₀ t d
  | _ :: h, ds => K.Debts h ds

/-- Every thread is on its track, and for all guesses there is a coarse run. -/
def Holds (K : Simulation M' M G D O) (c₀ : Config S ε W T) (h' : Hist S' ε W' T C)
    (c' : Config S' ε W' T) : Prop :=
  K.inv c'.world ∧ ∃ f : T → G → Prog S ε Unit × D,
    (∀ t, K.Tracks t (K.Answered Prog.ofResult) (c'.prog t) (f t) c'.world) ∧
    ∀ g : T → G, ∃ h c, Run M c₀ h c ∧ K.rel c'.world (fun t => (f t (g t)).2) c.world ∧
      (∀ t, c.prog t = (f t (g t)).1) ∧
      shown K.seen' h' = shown K.seen h ∧ K.Debts h' fun t => (f t (g t)).2

variable {c₀ : Config S ε W T} {h' : Hist S' ε W' T C} {c' d' : Config S' ε W' T}

/-- The debts after thread `t` has moved to a family `f'`. -/
theorem debts_update (f : T → G → Prog S ε Unit × D) (f' : G → Prog S ε Unit × D) (t : T)
    (g : T → G) (γ : G) :
    (fun u => (Function.update f t f' u (g u)).2) =
      Function.update (fun u => (f u (Function.update g t γ u)).2) t (f' (g t)).2 := by
  funext u
  by_cases hu : u = t
  · subst hu
    simp
  · simp [hu]

/-- The programs after thread `t` has moved to a family `f'`. -/
theorem progs_update {f : T → G → Prog S ε Unit × D} (f' : G → Prog S ε Unit × D) {g : T → G}
    {γ : G} {p : T → Prog S ε Unit} (hp : ∀ u, p u = (f u (Function.update g t γ u)).1) (u : T) :
    Function.update p t (f' (g t)).1 u = (Function.update f t f' u (g u)).1 := by
  by_cases hu : u = t
  · subst hu
    simp
  · simp [hu, hp u]

/-- **An action of the fine machine** is no action of the coarse one, or one of them. -/
theorem holds_act {b : S'.Act} {k : Except ε (S'.Resp b) → Prog S' ε Unit}
    {r : Except ε (S'.Resp b)} {z : W'} (hI : K.Holds c₀ h' c') (hk : c'.prog t = .call b k)
    (hx : M'.exec c'.world b r z) (hc : K.cond c'.world (.act t b r)) :
    K.Holds c₀ ((c'.world, .act t b r) :: h') (c'.become t z (k r)) := by
  obtain ⟨hinv, f, hf, hg⟩ := hI
  have ht := hf t
  rw [hk] at ht
  obtain ⟨hz, hothers, f', hmoves, hrest⟩ := ht c'.world (K.refl t _) hinv r z hx hc
  refine ⟨hz, Function.update f t f', fun u => ?_, fun g => ?_⟩
  · by_cases hu : u = t
    · subst hu
      rw [Config.become_self, Function.update_self]
      exact hrest
    · rw [Config.become_ne c' hu, Function.update_of_ne hu]
      exact tracks_stable (hothers u hu) (hf u)
  · -- the coarse run under the guess that the action has proved right
    obtain ⟨γ, howes, hγ⟩ := hmoves (g t)
    obtain ⟨h, c, hrun, hrel, hprog, hshows, hdebts⟩ := hg (Function.update g t γ)
    have hdebts' : K.Debts ((c'.world, .act t b r) :: h') fun u => (Function.update f t f' u (g u)).2 :=
      ⟨_, (f' (g t)).2, hdebts, by simpa using howes, debts_update f f' t g γ⟩
    rcases hγ _ _ (by simp) hrel with ⟨hsame, hseen, hrel'⟩ | ⟨a, j, y, w', hcall, hnext, hexec,
      hrel', hseen⟩
    · refine ⟨h, c, hrun, ?_, fun u => ?_, ?_, hdebts'⟩
      · rw [debts_update f f' t g γ]
        exact hrel'
      · rw [← progs_update f' hprog u, hsame]
        by_cases hu : u = t
        · subst hu
          rw [Function.update_self, hprog u, Function.update_self]
        · rw [Function.update_of_ne hu]
      · rw [shown_cons, hshows]
        simp only [Label.shows, hseen, Option.map_none, Option.toList_none, List.nil_append]
    · have hcall' : c.prog t = .call a j := by
        rw [hprog t, Function.update_self]
        exact hcall
      refine ⟨_, _, hrun.step (.act hcall' hexec), ?_, fun u => ?_, ?_, hdebts'⟩
      · rw [debts_update f f' t g γ]
        exact hrel'
      · rw [← progs_update f' hprog u, hnext]
        rfl
      · rw [shown_cons, shown_cons, hshows]
        simp only [Label.shows, hseen]

/-- An idle fine thread has an idle coarse one that owes nothing. -/
theorem tracks_done {c : Prog S' ε Unit} (hd : c.Done)
    (h : K.Tracks t (K.Answered Prog.ofResult) c f x) :
    ∃ r, f = fun _ => (Prog.ofResult r, K.settled) := by
  cases c with
  | ret v => exact ⟨_, h x (K.refl t x)⟩
  | throw e => exact ⟨_, h x (K.refl t x)⟩
  | call b k => exact hd.elim

/-- **An idle thread starts an operation** in both machines. -/
theorem holds_call {o : C} (hI : K.Holds c₀ h' c') (hd : (c'.prog t).Done)
    (hmenu : ∀ {c ds}, K.rel c'.world ds c.world → M.menu t c o)
    (hbody : ∀ x, K.Tracks t (K.Answered Prog.ofResult) (M'.body o)
      (fun _ => (M.body o, K.settled)) x) :
    K.Holds c₀ ((c'.world, .call t o) :: h') (c'.become t c'.world (M'.body o)) := by
  obtain ⟨hinv, f, hf, hg⟩ := hI
  refine ⟨hinv, Function.update f t fun _ => (M.body o, K.settled), fun u => ?_, fun g => ?_⟩
  · by_cases hu : u = t
    · subst hu
      rw [Config.become_self, Function.update_self]
      exact hbody _
    · rw [Config.become_ne c' hu, Function.update_of_ne hu]
      exact hf u
  · obtain ⟨h, c, hrun, hrel, hprog, hshows, hdebts⟩ := hg g
    obtain ⟨r, hr⟩ := tracks_done hd (hf t)
    have hdone : (c.prog t).Done := by
      simp only [hprog t, hr]
      exact Prog.done_ofResult r
    have hg' : Function.update g t (g t) = g := Function.update_eq_self t g
    have hsame : (fun u => (Function.update f t (fun _ => (M.body o, K.settled)) u (g u)).2) =
        fun u => (f u (g u)).2 := by
      rw [debts_update f _ t g (g t), hg', Function.update_eq_iff]
      exact ⟨by simp only [hr], fun _ _ => rfl⟩
    refine ⟨_, _, hrun.step (.call hdone (hmenu hrel)), ?_, fun u => ?_, ?_, ?_⟩
    · rw [hsame]
      exact hrel
    · rw [← hg'] at hprog
      exact progs_update (fun _ => (M.body o, K.settled)) hprog u
    · rw [shown_cons, shown_cons, hshows]
      rfl
    · rw [hsame]
      exact hdebts

/-- **Soundness.** A run of the fine machine has a run of the coarse one with the same
operations started and the same actions shown, that ends in a related world, for every
idle thread with an idle one. The threads owe what their actions have made them owe. -/
theorem run [Nonempty G] {w₀ : W} {w₀' : W'} (h0 : K.inv w₀') (hrel : K.rel w₀' (fun _ => K.settled) w₀)
    (hmenu : ∀ {t c' c o ds}, M'.menu t c' o → K.rel c'.world ds c.world → M.menu t c o)
    (hbody : ∀ {t c' o}, M'.menu t c' o → ∀ x, K.Tracks t (K.Answered Prog.ofResult) (M'.body o)
      (fun _ => (M.body o, K.settled)) x)
    (henv : ∀ {x y}, M'.env x y → K.inv x → K.inv y ∧ (∀ t, K.rely t x y) ∧
      ∀ ds w, K.rel x ds w → ∃ w', M.env w w' ∧ K.rel y ds w')
    (hrun : Run M' (.idle w₀') h' c') (hm : Meets (fun _ w l => K.cond w l) h') :
    ∃ h c ds, Run M (.idle w₀) h c ∧ K.rel c'.world ds c.world ∧
      shown K.seen' h' = shown K.seen h ∧ K.Debts h' ds ∧
        ∀ t, (c'.prog t).Done → (c.prog t).Done ∧ ds t = K.settled := by
  have hinit : K.Holds (.idle w₀) [] (.idle w₀' : Config S' ε W' T) :=
    ⟨h0, fun _ _ => (.ret (), K.settled), fun _ _ _ => rfl,
      fun _ => ⟨[], .idle w₀, .init, hrel, fun _ => rfl, rfl, rfl⟩⟩
  have hholds : K.Holds (.idle w₀) h' c' := by
    refine hrun.invariant hinit (fun {h₁ c₁ l c₂} hI hc hs => ?_) hm
    have hc : K.cond c₁.world l := hc
    cases hs with
    | call hd hmenu' => exact holds_call hI hd (hmenu hmenu') (hbody hmenu')
    | act hk hx => exact holds_act hI hk hx hc
    | env he =>
      obtain ⟨hinv, f, hf, hg⟩ := hI
      obtain ⟨hinv', hrely, hworld⟩ := henv he hinv
      refine ⟨hinv', f, fun t => tracks_stable (hrely t) (hf t), fun g => ?_⟩
      obtain ⟨h, c, hrun, hrel, hprog, hshows, hdebts⟩ := hg g
      obtain ⟨w', hw', hrel'⟩ := hworld _ _ hrel
      refine ⟨_, _, hrun.step (.env hw'), hrel', hprog, ?_, hdebts⟩
      rw [shown_cons, shown_cons, hshows]
      rfl
  obtain ⟨-, f, hf, hg⟩ := hholds
  obtain ⟨h, c, hrun, hrel, hprog, hshows, hdebts⟩ := hg fun _ => Classical.arbitrary G
  refine ⟨h, c, _, hrun, hrel, hshows, hdebts, fun t hd => ?_⟩
  obtain ⟨r, hr⟩ := tracks_done hd (hf t)
  refine ⟨?_, by simp only [hr]⟩
  rw [hprog t, hr]
  exact Prog.done_ofResult r

end Simulation

end SsdCache.Atomic
