import SsdCache.Atomic.Machine

/-!
# What a program called

`Prog.Traces exec c w tr r w'`: run alone from `w`, the program `c` asks the actions of
`tr`, gets the answers there and ends with `r` in `w'`. The rules take a trace apart as
the program is written; a proof outline over `alone` says how traces end. `Prog.Loops`
is a loop, pass by pass. What a program does alone, a thread of a machine can do next
(`Run.alone`).
-/

namespace SsdCache.Atomic

/-- An action and its answer. -/
abbrev Sig.Answered (S : Sig) (ε : Type) : Type := (a : S.Act) × Except ε (S.Resp a)

variable {S : Sig} {ε α β W : Type}

namespace Prog

/-- `c` run alone from `w` makes the calls `tr` and ends with `r` in `w'`. -/
def Traces (exec : W → (a : S.Act) → Except ε (S.Resp a) → W → Prop) :
    Prog S ε α → W → List (S.Answered ε) → Except ε α → W → Prop
  | .ret v, w, tr, r, w' => tr = [] ∧ r = .ok v ∧ w' = w
  | .throw e, w, tr, r, w' => tr = [] ∧ r = .error e ∧ w' = w
  | .call a k, w, tr, r, w' =>
    ∃ x u rest, tr = ⟨a, x⟩ :: rest ∧ exec w a x u ∧ (k x).Traces exec u rest r w'

variable {exec : W → (a : S.Act) → Except ε (S.Resp a) → W → Prop} {w w' : W}
variable {tr : List (S.Answered ε)}

/-- A program run alone makes some calls. -/
theorem ends_iff_traces {c : Prog S ε α} {r : Except ε α} :
    ∀ {w}, c.Ends exec w r w' ↔ ∃ tr, c.Traces exec w tr r w' := by
  induction c with
  | ret v => intro w; simp [Ends, Traces]
  | throw e => intro w; simp [Ends, Traces]
  | call a k ih =>
    intro w
    constructor
    · rintro ⟨x, u, hx, h⟩
      obtain ⟨tr, htr⟩ := (ih x).1 h
      exact ⟨⟨a, x⟩ :: tr, x, u, tr, rfl, hx, htr⟩
    · rintro ⟨tr, x, u, rest, -, hx, h⟩
      exact ⟨x, u, hx, (ih x).2 ⟨rest, h⟩⟩

/-- Run `c` alone with one answer for every action, and list the calls. -/
def transcript (act : W → (a : S.Act) → Option (Except ε (S.Resp a) × W)) :
    Prog S ε α → W → Option (List (S.Answered ε) × Except ε α × W)
  | .ret v, w => some ([], .ok v, w)
  | .throw e, w => some ([], .error e, w)
  | .call a k, w => (act w a).bind fun x =>
    ((k x.1).transcript act x.2).map fun y => (⟨a, x.1⟩ :: y.1, y.2)

/-- What a transcript lists, the program calls. -/
theorem traces_of_transcript {act : W → (a : S.Act) → Option (Except ε (S.Resp a) × W)}
    (hact : ∀ {w a r w'}, act w a = some (r, w') → exec w a r w') {c : Prog S ε α}
    {r : Except ε α} :
    ∀ {w tr}, c.transcript act w = some (tr, r, w') → c.Traces exec w tr r w' := by
  induction c with
  | ret v => intro w tr h; cases h; exact ⟨rfl, rfl, rfl⟩
  | throw e => intro w tr h; cases h; exact ⟨rfl, rfl, rfl⟩
  | call a k ih =>
    intro w tr h
    obtain ⟨⟨x, u⟩, hx, h⟩ := Option.bind_eq_some_iff.1 h
    obtain ⟨⟨rest, r', u'⟩, hrest, h⟩ := Option.map_eq_some_iff.1 h
    cases h
    exact ⟨x, u, rest, rfl, hact hx, ih x hrest⟩

/-- A transcript with property `p`. -/
theorem exists_traces {act : W → (a : S.Act) → Option (Except ε (S.Resp a) × W)}
    (hact : ∀ {w a r w'}, act w a = some (r, w') → exec w a r w') {c : Prog S ε α}
    {p : List (S.Answered ε) × Except ε α × W → Bool} (hp : (c.transcript act w).any p = true) :
    ∃ tr r w', c.Traces exec w tr r w' ∧ p (tr, r, w') = true := by
  rw [Option.any_eq_true] at hp
  obtain ⟨⟨tr, r, w'⟩, hx, hpx⟩ := hp
  exact ⟨tr, r, w', traces_of_transcript hact hx, hpx⟩

/-- **Sequencing**: the first part throws, or the rest goes on from its value. -/
theorem traces_bind {c : Prog S ε α} {f : α → Prog S ε β} {r : Except ε β} :
    ∀ {w tr}, (c.bind f).Traces exec w tr r w' ↔
      (∃ e, r = .error e ∧ c.Traces exec w tr (.error e) w') ∨
      ∃ v m tr₁ tr₂, tr = tr₁ ++ tr₂ ∧ c.Traces exec w tr₁ (.ok v) m ∧
        (f v).Traces exec m tr₂ r w' := by
  induction c with
  | ret v =>
    intro w tr
    constructor
    · exact fun h => .inr ⟨v, w, [], tr, rfl, ⟨rfl, rfl, rfl⟩, h⟩
    · rintro (⟨e, -, -, h, -⟩ | ⟨v, m, tr₁, tr₂, rfl, ⟨rfl, h, rfl⟩, hf⟩)
      · cases h
      · cases h; exact hf
  | throw e =>
    intro w tr
    constructor
    · rintro ⟨rfl, rfl, rfl⟩
      exact .inl ⟨e, rfl, rfl, rfl, rfl⟩
    · rintro (⟨e', rfl, rfl, h, rfl⟩ | ⟨v, m, tr₁, tr₂, -, ⟨-, h, -⟩, -⟩)
      · cases h; exact ⟨rfl, rfl, rfl⟩
      · cases h
  | call a k ih =>
    intro w tr
    constructor
    · rintro ⟨x, u, rest, rfl, hx, h⟩
      rcases (ih x).1 h with ⟨e, rfl, he⟩ | ⟨v, m, tr₁, tr₂, rfl, hc, hf⟩
      · exact .inl ⟨e, rfl, x, u, rest, rfl, hx, he⟩
      · exact .inr ⟨v, m, ⟨a, x⟩ :: tr₁, tr₂, rfl, ⟨x, u, tr₁, rfl, hx, hc⟩, hf⟩
    · rintro (⟨e, rfl, x, u, rest, rfl, hx, he⟩ |
        ⟨v, m, tr₁, tr₂, rfl, ⟨x, u, rest, rfl, hx, hc⟩, hf⟩)
      · exact ⟨x, u, rest, rfl, hx, (ih x).2 (.inl ⟨e, rfl, he⟩)⟩
      · exact ⟨x, u, rest ++ tr₂, rfl, hx, (ih x).2 (.inr ⟨v, m, rest, tr₂, rfl, hc, hf⟩)⟩

/-- **Exception handling**: the body returns, or the handler goes on from its exception. -/
theorem traces_tryCatch {c : Prog S ε α} {f : ε → Prog S ε α} {r : Except ε α} :
    ∀ {w tr}, (c.tryCatch f).Traces exec w tr r w' ↔
      (∃ v, r = .ok v ∧ c.Traces exec w tr (.ok v) w') ∨
      ∃ e m tr₁ tr₂, tr = tr₁ ++ tr₂ ∧ c.Traces exec w tr₁ (.error e) m ∧
        (f e).Traces exec m tr₂ r w' := by
  induction c with
  | ret v =>
    intro w tr
    constructor
    · rintro ⟨rfl, rfl, rfl⟩
      exact .inl ⟨v, rfl, rfl, rfl, rfl⟩
    · rintro (⟨v', rfl, rfl, h, rfl⟩ | ⟨e, m, tr₁, tr₂, -, ⟨-, h, -⟩, -⟩)
      · cases h; exact ⟨rfl, rfl, rfl⟩
      · cases h
  | throw e =>
    intro w tr
    constructor
    · exact fun h => .inr ⟨e, w, [], tr, rfl, ⟨rfl, rfl, rfl⟩, h⟩
    · rintro (⟨v, -, -, h, -⟩ | ⟨e', m, tr₁, tr₂, rfl, ⟨rfl, h, rfl⟩, hf⟩)
      · cases h
      · cases h; exact hf
  | call a k ih =>
    intro w tr
    constructor
    · rintro ⟨x, u, rest, rfl, hx, h⟩
      rcases (ih x).1 h with ⟨v, rfl, hv⟩ | ⟨e, m, tr₁, tr₂, rfl, hc, hf⟩
      · exact .inl ⟨v, rfl, x, u, rest, rfl, hx, hv⟩
      · exact .inr ⟨e, m, ⟨a, x⟩ :: tr₁, tr₂, rfl, ⟨x, u, tr₁, rfl, hx, hc⟩, hf⟩
    · rintro (⟨v, rfl, x, u, rest, rfl, hx, hv⟩ |
        ⟨e, m, tr₁, tr₂, rfl, ⟨x, u, rest, rfl, hx, hc⟩, hf⟩)
      · exact ⟨x, u, rest, rfl, hx, (ih x).2 (.inl ⟨v, rfl, hv⟩)⟩
      · exact ⟨x, u, rest ++ tr₂, rfl, hx, (ih x).2 (.inr ⟨e, m, rest, tr₂, rfl, hc, hf⟩)⟩

/-- **Cleaning up**: the body ends, and the cleanup runs from there. -/
theorem traces_ensuring {c : Prog S ε α} {d : Prog S ε Unit} {r : Except ε α} :
    ∀ {w tr}, (c.ensuring d).Traces exec w tr r w' →
      ∃ r₀ m tr₁ tr₂, tr = tr₁ ++ tr₂ ∧ c.Traces exec w tr₁ r₀ m ∧
        ((∃ e, r = .error e ∧ d.Traces exec m tr₂ (.error e) w') ∨
          (r = r₀ ∧ d.Traces exec m tr₂ (.ok ()) w')) := by
  induction c with
  | ret v =>
    intro w tr h
    refine ⟨.ok v, w, [], tr, rfl, ⟨rfl, rfl, rfl⟩, ?_⟩
    rcases traces_bind.1 h with he | ⟨_, m, tr₁, tr₂, rfl, hd, rfl, rfl, rfl⟩
    · exact .inl he
    · rw [List.append_nil]
      exact .inr ⟨rfl, hd⟩
  | throw e =>
    intro w tr h
    refine ⟨.error e, w, [], tr, rfl, ⟨rfl, rfl, rfl⟩, ?_⟩
    rcases traces_bind.1 h with he | ⟨_, m, tr₁, tr₂, rfl, hd, rfl, rfl, rfl⟩
    · exact .inl he
    · rw [List.append_nil]
      exact .inr ⟨rfl, hd⟩
  | call a k ih =>
    rintro w tr ⟨x, u, rest, rfl, hx, h⟩
    obtain ⟨r₀, m, tr₁, tr₂, rfl, hc, hd⟩ := ih x h
    exact ⟨r₀, m, ⟨a, x⟩ :: tr₁, tr₂, rfl, ⟨x, u, tr₁, rfl, hx, hc⟩, hd⟩

/-- A program calls only what it can ask. -/
theorem Only.traces {A : S.Act → Prop} {c : Prog S ε α} {r : Except ε α} :
    ∀ {w tr}, c.Only A → c.Traces exec w tr r w' → ∀ x ∈ tr, A x.1 := by
  induction c with
  | ret v => rintro w tr - ⟨rfl, -⟩ x hx; cases hx
  | throw e => rintro w tr - ⟨rfl, -⟩ x hx; cases hx
  | call a k ih =>
    rintro w tr hc ⟨x, u, rest, rfl, -, h⟩
    exact List.forall_mem_cons.2 ⟨hc.1, ih x (hc.2 x) h⟩

/-- One action. -/
theorem traces_perform {a : S.Act} {r : Except ε (S.Resp a)} :
    (perform a).Traces exec w tr r w' ↔ tr = [⟨a, r⟩] ∧ exec w a r w' := by
  constructor
  · rintro ⟨x, u, rest, rfl, hx, h⟩
    cases x with
    | ok v => obtain ⟨rfl, rfl, rfl⟩ := h; exact ⟨rfl, hx⟩
    | error e => obtain ⟨rfl, rfl, rfl⟩ := h; exact ⟨rfl, hx⟩
  · rintro ⟨rfl, hx⟩
    refine ⟨r, w', [], rfl, hx, ?_⟩
    cases r with
    | ok v => exact ⟨rfl, rfl, rfl⟩
    | error e => exact ⟨rfl, rfl, rfl⟩

/-- **One action, then the rest**: the action throws, or the rest goes on from its value. -/
theorem traces_perform_bind {a : S.Act} {f : S.Resp a → Prog S ε β} {r : Except ε β}
    (h : ((perform a).bind f).Traces exec w tr r w') :
    (∃ e, r = .error e ∧ tr = [⟨a, .error e⟩] ∧ exec w a (.error e) w') ∨
      ∃ v m rest, tr = ⟨a, .ok v⟩ :: rest ∧ exec w a (.ok v) m ∧ (f v).Traces exec m rest r w' := by
  obtain ⟨x, m, rest, rfl, hx, h⟩ := h
  cases x with
  | ok v => exact .inr ⟨v, m, rest, rfl, hx, h⟩
  | error e =>
    obtain ⟨rfl, rfl, rfl⟩ := h
    exact .inl ⟨e, rfl, rfl, hx⟩

/-- **One action, then the rest, of a program that returned.** -/
theorem traces_perform_ok {a : S.Act} {f : S.Resp a → Prog S ε β} {v : β}
    (h : ((perform a).bind f).Traces exec w tr (.ok v) w') :
    ∃ u m rest, tr = ⟨a, .ok u⟩ :: rest ∧ exec w a (.ok u) m ∧
      (f u).Traces exec m rest (.ok v) w' := by
  rcases traces_perform_bind h with ⟨e, he, -⟩ | hok
  · cases he
  · exact hok

/-- The program throws the exceptions of its actions and no others. -/
def Rethrows : Prog S ε α → Prop
  | .ret _ => True
  | .throw _ => False
  | .call _ k => (∀ e, k (.error e) = .throw e) ∧ ∀ v, (k (.ok v)).Rethrows

theorem rethrows_perform (a : S.Act) : (perform a : Prog S ε (S.Resp a)).Rethrows :=
  ⟨fun _ => rfl, fun _ => trivial⟩

theorem Rethrows.bind {c : Prog S ε α} {f : α → Prog S ε β} :
    c.Rethrows → (∀ v, (f v).Rethrows) → (c.bind f).Rethrows := by
  induction c with
  | ret v => exact fun _ hf => hf v
  | throw e => exact fun hc => hc.elim
  | call a k ih =>
    intro hc hf
    refine ⟨fun e => ?_, fun v => ih (.ok v) (hc.2 v) hf⟩
    change (k (.error e)).bind f = .throw e
    rw [hc.1 e]
    rfl

/-- **Such a program ends in an exception** exactly if one of its calls threw. -/
theorem Rethrows.traces {c : Prog S ε α} {r : Except ε α} : ∀ {w tr}, c.Rethrows →
    c.Traces exec w tr r w' → ((∃ e, r = .error e) ↔ ∃ x ∈ tr, ∃ e, x.2 = .error e) := by
  induction c with
  | ret v =>
    rintro w tr - ⟨rfl, rfl, -⟩
    simp
  | throw e => exact fun hc => hc.elim
  | call a k ih =>
    rintro w tr hc ⟨x, u, rest, rfl, -, h⟩
    cases x with
    | ok v =>
      rw [ih (.ok v) (hc.2 v) h]
      simp
    | error e =>
      rw [hc.1 e] at h
      obtain ⟨rfl, rfl, -⟩ := h
      simp

/-- Run alone, with the calls made so far. -/
def alone (exec : W → (a : S.Act) → Except ε (S.Resp a) → W → Prop) :
    Contract S ε (List (S.Answered ε) × W) where
  rely := Eq
  step x a r y := exec x.2 a r y.2 ∧ y.1 = x.1 ++ [⟨a, r⟩]
  keep _ _ _ _ := True
  refl := Eq.refl
  trans := Eq.trans

theorem stable_alone {P : List (S.Answered ε) × W → Prop} : (alone exec).Stable P := by
  rintro x _ rfl hx
  exact hx

/-- **What is proved of a program that runs alone** holds of its calls and its end. -/
theorem traces_of_safe {Q : Except ε α → List (S.Answered ε) × W → Prop} {c : Prog S ε α}
    {r : Except ε α} : ∀ {w tr₀ tr}, c.Safe (alone exec) Q (tr₀, w) → c.Traces exec w tr r w' →
      Q r (tr₀ ++ tr, w') := by
  induction c with
  | ret v =>
    rintro w tr₀ tr h ⟨rfl, rfl, rfl⟩
    rw [List.append_nil]
    exact h _ rfl
  | throw e =>
    rintro w tr₀ tr h ⟨rfl, rfl, rfl⟩
    rw [List.append_nil]
    exact h _ rfl
  | call a k ih =>
    rintro w tr₀ tr h ⟨x, u, rest, rfl, hx, hrest⟩
    obtain ⟨-, hk⟩ := h (tr₀, w) rfl x (tr₀ ++ [⟨a, x⟩], u) ⟨hx, rfl⟩
    have hQ := ih x hk hrest
    rwa [List.append_assoc, List.singleton_append] at hQ

/-- `c` in a loop: the calls of its passes, and the exception that leaves the loop, if one
has. -/
def Loops (exec : W → (a : S.Act) → Except ε (S.Resp a) → W → Prop) (c : Prog S ε Unit) :
    W → List (List (S.Answered ε)) → Except ε Unit → W → Prop
  | w, [], r, w' => r = .ok () ∧ w' = w
  | w, tr :: trs, r, w' =>
    (∃ e, r = .error e ∧ trs = [] ∧ c.Traces exec w tr r w') ∨
      ∃ m, c.Traces exec w tr (.ok ()) m ∧ Loops exec c m trs r w'

/-- **An exception leaves a loop** exactly if one of its passes fails. -/
theorem loops_iff {c : Prog S ε Unit} {Fails : List (S.Answered ε) → Prop}
    (hc : ∀ {w tr r w'}, c.Traces exec w tr r w' → ((∃ e, r = .error e) ↔ Fails tr))
    {r : Except ε Unit} :
    ∀ {w trs}, c.Loops exec w trs r w' → ((∃ e, r = .error e) ↔ ∃ tr ∈ trs, Fails tr) := by
  intro w trs
  induction trs generalizing w with
  | nil =>
    rintro ⟨rfl, -⟩
    simp
  | cons tr trs ih =>
    rintro (⟨e, rfl, rfl, h⟩ | ⟨m, h, hrest⟩)
    · -- the pass that throws is the last one
      have hfails : Fails tr := (hc h).1 ⟨e, rfl⟩
      exact iff_of_true ⟨e, rfl⟩ ⟨tr, List.mem_singleton_self tr, hfails⟩
    · have hpass : ¬ Fails tr := fun hf => by
        obtain ⟨e, he⟩ := (hc h).2 hf
        cases he
      simp only [ih hrest, List.mem_cons, exists_eq_or_imp, hpass, false_or]

end Prog

/-- **A thread can go on alone**: what its program does from here is a run. -/
theorem Run.alone {T C : Type} [DecidableEq T] {M : Machine S ε W T C} {c₀ : Config S ε W T} {t : T}
    {p : Prog S ε Unit} {r : Except ε Unit} {w' : W} :
    ∀ {h : Hist S ε W T C} {c : Config S ε W T} {tr : List (S.Answered ε)}, Run M c₀ h c →
      c.prog t = p → p.Traces M.exec c.world tr r w' →
      ∃ h' c', Run M c₀ (h' ++ h) c' ∧ c'.world = w' ∧ (c'.prog t).Done ∧
        h'.map Prod.snd = (tr.map fun x => Label.act t x.1 x.2).reverse := by
  induction p with
  | ret v =>
    rintro h c tr hrun hp ⟨rfl, -, rfl⟩
    exact ⟨[], c, hrun, rfl, by rw [hp]; trivial, rfl⟩
  | throw e =>
    rintro h c tr hrun hp ⟨rfl, -, rfl⟩
    exact ⟨[], c, hrun, rfl, by rw [hp]; trivial, rfl⟩
  | call a k ih =>
    rintro h c tr hrun hp ⟨x, u, rest, rfl, hx, htr⟩
    have hstep : Step M c (.act t a x) (c.become t u (k x)) := .act hp hx
    obtain ⟨h', c', hrun', hw, hd, hlabels⟩ := ih x (hrun.step hstep) (Config.become_self ..) htr
    refine ⟨h' ++ [(c.world, .act t a x)], c', ?_, hw, hd, ?_⟩
    · rw [List.append_assoc]
      exact hrun'
    · rw [List.map_append, hlabels]
      simp

end SsdCache.Atomic
