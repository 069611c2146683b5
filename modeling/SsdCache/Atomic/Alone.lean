import SsdCache.Atomic.Trace

/-!
# Rules for a program run alone

What a program preserves however it ends (`Prog.Keeps`), what holds once it has returned
(`Prog.Leads`) or thrown (`Prog.Yields`), which actions it has then asked (`Prog.Performs`), and
when it waits for an answer that never comes (`Prog.Blocks`). Each has a rule for the ways to put
programs together.
-/

namespace SsdCache.Atomic

variable {S : Sig} {ε α β W : Type}

namespace Prog

variable {exec : W → (a : S.Act) → Except ε (S.Resp a) → W → Prop} {w w' : W}
variable {tr : List (S.Answered ε)} {P R : W → Prop}

/-! ### What it preserves -/

/-- Run alone, `c` preserves `P`, however it ends. -/
def Keeps (exec : W → (a : S.Act) → Except ε (S.Resp a) → W → Prop) (P : W → Prop)
    (c : Prog S ε α) : Prop :=
  ∀ ⦃w tr r w'⦄, c.Traces exec w tr r w' → P w → P w'

theorem keeps_ret (v : α) : (ret v : Prog S ε α).Keeps exec P := by
  intro w tr r w' h hP
  obtain ⟨-, -, rfl⟩ := h
  exact hP

theorem keeps_throw (e : ε) : (throw e : Prog S ε α).Keeps exec P := by
  intro w tr r w' h hP
  obtain ⟨-, -, rfl⟩ := h
  exact hP

theorem keeps_perform {a : S.Act} (ha : ∀ {w r w'}, exec w a r w' → P w → P w') :
    (perform a : Prog S ε (S.Resp a)).Keeps exec P := by
  rintro w tr r w' ⟨x, u, rest, -, hx, h⟩ hP
  have hu : P u := ha hx hP
  cases x with
  | ok v => exact keeps_ret v h hu
  | error e => exact keeps_throw e h hu

theorem Keeps.bind {c : Prog S ε α} {f : α → Prog S ε β} (hc : c.Keeps exec P)
    (hf : ∀ v, (f v).Keeps exec P) : (c.bind f).Keeps exec P := by
  intro w tr r w' h hP
  rcases traces_bind.1 h with ⟨e, -, hce⟩ | ⟨v, m, tr₁, tr₂, -, hcv, hrest⟩
  · exact hc hce hP
  · exact hf v hrest (hc hcv hP)

theorem Keeps.tryCatch {c : Prog S ε α} {f : ε → Prog S ε α} (hc : c.Keeps exec P)
    (hf : ∀ e, (f e).Keeps exec P) : (c.tryCatch f).Keeps exec P := by
  intro w tr r w' h hP
  rcases traces_tryCatch.1 h with ⟨v, -, hcv⟩ | ⟨e, m, tr₁, tr₂, -, hce, hrest⟩
  · exact hc hcv hP
  · exact hf e hrest (hc hce hP)

theorem Keeps.ensuring {c : Prog S ε α} {d : Prog S ε Unit} (hc : c.Keeps exec P)
    (hd : d.Keeps exec P) : (c.ensuring d).Keeps exec P := by
  intro w tr r w' h hP
  obtain ⟨r₀, m, tr₁, tr₂, -, hbody, hcleanup⟩ := traces_ensuring h
  have hm : P m := hc hbody hP
  rcases hcleanup with ⟨e, -, hde⟩ | ⟨-, hdo⟩
  · exact hd hde hm
  · exact hd hdo hm

/-- What all its actions preserve. -/
theorem Only.keeps {A : S.Act → Prop} {c : Prog S ε α} (hc : c.Only A)
    (hA : ∀ {w a r w'}, A a → exec w a r w' → P w → P w') : c.Keeps exec P :=
  fun _ tr _ _ h hP => hc.ends hA (ends_iff_traces.2 ⟨tr, h⟩) hP

/-! ### What it establishes -/

/-- Run alone from `P`, `c` returns in `Q`, if it returns. -/
def Leads (exec : W → (a : S.Act) → Except ε (S.Resp a) → W → Prop) (P : W → Prop)
    (c : Prog S ε α) (Q : α → W → Prop) : Prop :=
  ∀ ⦃w tr v w'⦄, c.Traces exec w tr (.ok v) w' → P w → Q v w'

theorem leads_perform {a : S.Act} {Q : S.Resp a → W → Prop}
    (ha : ∀ {w v w'}, exec w a (.ok v) w' → P w → Q v w') : (perform a).Leads exec P Q :=
  fun _ _ _ _ h hP => ha (traces_perform.1 h).2 hP

theorem Leads.bind {c : Prog S ε α} {f : α → Prog S ε β} {I : α → W → Prop} {Q : β → W → Prop}
    (hc : c.Leads exec P I) (hf : ∀ v, (f v).Leads exec (I v) Q) :
    (c.bind f).Leads exec P Q := by
  intro w tr v w' h hP
  rcases traces_bind.1 h with ⟨e, he, -⟩ | ⟨u, m, tr₁, tr₂, -, hcv, hrest⟩
  · cases he
  · exact hf u hrest (hc hcv hP)

/-- What it preserves still holds. -/
theorem Leads.keeping {c : Prog S ε α} {Q : α → W → Prop} (hc : c.Leads exec P Q)
    (hR : c.Keeps exec R) : c.Leads exec (fun w => R w ∧ P w) fun v w => R w ∧ Q v w :=
  fun _ _ _ _ h hP => ⟨hR h hP.1, hc h hP.2⟩

/-! ### How it ends -/

/-- Run alone from `P`, `c` returns in `Q` or throws in `E`. -/
def Yields (exec : W → (a : S.Act) → Except ε (S.Resp a) → W → Prop) (P : W → Prop)
    (c : Prog S ε α) (Q : α → W → Prop) (E : W → Prop) : Prop :=
  ∀ ⦃w tr r w'⦄, c.Traces exec w tr r w' → P w →
    match r with
    | .ok v => Q v w'
    | .error _ => E w'

variable {Q : α → W → Prop} {E : W → Prop}

theorem yields_ret {v : α} (hv : ∀ {w}, P w → Q v w) :
    (ret v : Prog S ε α).Yields exec P Q E := by
  rintro w tr r w' ⟨-, rfl, rfl⟩ hP
  exact hv hP

theorem yields_perform {a : S.Act} {Q : S.Resp a → W → Prop}
    (hok : ∀ {w v w'}, exec w a (.ok v) w' → P w → Q v w')
    (herror : ∀ {w e w'}, exec w a (.error e) w' → P w → E w') :
    (perform a).Yields exec P Q E := by
  intro w tr r w' h hP
  obtain ⟨-, hx⟩ := traces_perform.1 h
  cases r with
  | ok v => exact hok hx hP
  | error e => exact herror hx hP

theorem Yields.bind {c : Prog S ε α} {f : α → Prog S ε β} {I : α → W → Prop} {Q : β → W → Prop}
    (hc : c.Yields exec P I E) (hf : ∀ v, (f v).Yields exec (I v) Q E) :
    (c.bind f).Yields exec P Q E := by
  intro w tr r w' h hP
  rcases traces_bind.1 h with ⟨e, rfl, hce⟩ | ⟨v, m, tr₁, tr₂, -, hcv, hrest⟩
  · exact hc hce hP
  · exact hf v hrest (hc hcv hP)

theorem Yields.tryCatch {c : Prog S ε α} {f : ε → Prog S ε α} {C : W → Prop}
    (hc : c.Yields exec P Q C) (hf : ∀ e, (f e).Yields exec C Q E) :
    (c.tryCatch f).Yields exec P Q E := by
  intro w tr r w' h hP
  rcases traces_tryCatch.1 h with ⟨v, rfl, hcv⟩ | ⟨e, m, tr₁, tr₂, -, hce, hrest⟩
  · exact hc hcv hP
  · exact hf e hrest (hc hce hP)

/-- A cleanup that does not throw and preserves how the body ended. -/
theorem Yields.ensuring {c : Prog S ε α} {d : Prog S ε Unit} (hc : c.Yields exec P Q E)
    (hQ : ∀ v, d.Yields exec (Q v) (fun _ => Q v) fun _ => False)
    (hE : d.Yields exec E (fun _ => E) fun _ => False) : (c.ensuring d).Yields exec P Q E := by
  intro w tr r w' h hP
  obtain ⟨r₀, m, tr₁, tr₂, -, hbody, hcleanup⟩ := traces_ensuring h
  have hm := hc hbody hP
  cases r₀ with
  | ok v =>
    rcases hcleanup with ⟨e, -, hde⟩ | ⟨rfl, hdo⟩
    · exact (hQ v hde hm).elim
    · exact hQ v hdo hm
  | error e =>
    rcases hcleanup with ⟨e', -, hde⟩ | ⟨rfl, hdo⟩
    · exact (hE hde hm).elim
    · exact hE hdo hm

theorem Yields.mono {P' : W → Prop} {c : Prog S ε α} {Q' : α → W → Prop} {E' : W → Prop}
    (hc : c.Yields exec P Q E) (hP : ∀ {w}, P' w → P w) (hQ : ∀ {v w}, Q v w → Q' v w)
    (hE : ∀ {w}, E w → E' w) : c.Yields exec P' Q' E' := by
  intro w tr r w' h hw
  have hend := hc h (hP hw)
  cases r with
  | ok v => exact hQ hend
  | error e => exact hE hend

/-- What it preserves still holds. -/
theorem Yields.keeping {c : Prog S ε α} (hc : c.Yields exec P Q E) (hR : c.Keeps exec R) :
    c.Yields exec (fun w => R w ∧ P w) (fun v w => R w ∧ Q v w) fun w => R w ∧ E w := by
  intro w tr r w' h hw
  have hend := hc h hw.2
  cases r with
  | ok v => exact ⟨hR h hw.1, hend⟩
  | error e => exact ⟨hR h hw.1, hend⟩

/-- What it preserves holds however it ends. -/
theorem Keeps.yields {c : Prog S ε α} (hc : c.Keeps exec P) :
    c.Yields exec P (fun _ => P) P := by
  intro w tr r w' h hP
  cases r with
  | ok v => exact hc h hP
  | error e => exact hc h hP

/-! ### What it asks -/

/-- Run alone, `c` has asked these actions in this order, among others, when it returns. -/
def Performs (exec : W → (a : S.Act) → Except ε (S.Resp a) → W → Prop) (l : List S.Act)
    (c : Prog S ε α) : Prop :=
  ∀ ⦃w tr v w'⦄, c.Traces exec w tr (.ok v) w' → l.Sublist (tr.map Sigma.fst)

theorem performs_nil (c : Prog S ε α) : c.Performs exec [] := fun _ _ _ _ _ => List.nil_sublist _

theorem performs_perform (a : S.Act) : (perform a).Performs exec [a] := by
  intro w tr v w' h
  rw [(traces_perform.1 h).1]
  exact List.Sublist.refl _

theorem Performs.bind {c : Prog S ε α} {f : α → Prog S ε β} {l₁ l₂ : List S.Act}
    (hc : c.Performs exec l₁) (hf : ∀ v, (f v).Performs exec l₂) :
    (c.bind f).Performs exec (l₁ ++ l₂) := by
  intro w tr v w' h
  rcases traces_bind.1 h with ⟨e, he, -⟩ | ⟨u, m, tr₁, tr₂, rfl, hcu, hrest⟩
  · cases he
  · rw [List.map_append]
    exact (hc hcu).append (hf u hrest)

/-! ### Waiting for ever -/

/-- Run alone from `w`, `c` makes the calls `tr` and then one that gets no answer. -/
def Blocks (exec : W → (a : S.Act) → Except ε (S.Resp a) → W → Prop) :
    Prog S ε α → W → List (S.Answered ε) → Prop
  | .ret _, _, _ | .throw _, _, _ => False
  | .call a k, w, tr => (tr = [] ∧ ∀ x u, ¬ exec w a x u) ∨
    ∃ x u rest, tr = ⟨a, x⟩ :: rest ∧ exec w a x u ∧ (k x).Blocks exec u rest

theorem blocks_bind {c : Prog S ε α} {f : α → Prog S ε β} :
    ∀ {w tr}, (c.bind f).Blocks exec w tr → c.Blocks exec w tr ∨
      ∃ v m tr₁ tr₂, tr = tr₁ ++ tr₂ ∧ c.Traces exec w tr₁ (.ok v) m ∧ (f v).Blocks exec m tr₂ := by
  induction c with
  | ret v => exact fun {w tr} h => .inr ⟨v, w, [], tr, rfl, ⟨rfl, rfl, rfl⟩, h⟩
  | throw e => exact fun h => h.elim
  | call a k ih =>
    rintro w tr (hstuck | ⟨x, u, rest, rfl, hx, h⟩)
    · exact .inl (.inl hstuck)
    · rcases ih x h with hk | ⟨v, m, tr₁, tr₂, rfl, hk, hf⟩
      · exact .inl (.inr ⟨x, u, rest, rfl, hx, hk⟩)
      · exact .inr ⟨v, m, ⟨a, x⟩ :: tr₁, tr₂, rfl, ⟨x, u, tr₁, rfl, hx, hk⟩, hf⟩

/-- **One action, then the rest**: the action gets no answer, or the rest waits. -/
theorem blocks_perform_bind {a : S.Act} {f : S.Resp a → Prog S ε β}
    (h : ((perform a).bind f).Blocks exec w tr) :
    (tr = [] ∧ ∀ x u, ¬ exec w a x u) ∨
      ∃ v m rest, tr = ⟨a, .ok v⟩ :: rest ∧ exec w a (.ok v) m ∧ (f v).Blocks exec m rest := by
  rcases h with hstuck | ⟨x, m, rest, rfl, hx, h⟩
  · exact .inl hstuck
  · cases x with
    | ok v => exact .inr ⟨v, m, rest, rfl, hx, h⟩
    | error e => exact h.elim

theorem blocks_ensuring {c : Prog S ε α} {d : Prog S ε Unit} :
    ∀ {w tr}, (c.ensuring d).Blocks exec w tr → c.Blocks exec w tr ∨
      ∃ r m tr₁ tr₂, tr = tr₁ ++ tr₂ ∧ c.Traces exec w tr₁ r m ∧ d.Blocks exec m tr₂ := by
  induction c with
  | ret v =>
    intro w tr h
    rcases blocks_bind h with hd | ⟨_, m, tr₁, tr₂, -, -, hret⟩
    · exact .inr ⟨.ok v, w, [], tr, rfl, ⟨rfl, rfl, rfl⟩, hd⟩
    · exact hret.elim
  | throw e =>
    intro w tr h
    rcases blocks_bind h with hd | ⟨_, m, tr₁, tr₂, -, -, hthrow⟩
    · exact .inr ⟨.error e, w, [], tr, rfl, ⟨rfl, rfl, rfl⟩, hd⟩
    · exact hthrow.elim
  | call a k ih =>
    rintro w tr (hstuck | ⟨x, u, rest, rfl, hx, h⟩)
    · exact .inl (.inl hstuck)
    · rcases ih x h with hk | ⟨r, m, tr₁, tr₂, rfl, hk, hd⟩
      · exact .inl (.inr ⟨x, u, rest, rfl, hx, hk⟩)
      · exact .inr ⟨r, m, ⟨a, x⟩ :: tr₁, tr₂, rfl, ⟨x, u, tr₁, rfl, hx, hk⟩, hd⟩

/-- **Where every action gets an answer**, no program waits for ever. -/
theorem Only.not_blocks {A : S.Act → Prop} (hA : ∀ {a}, A a → ∀ w, ∃ x u, exec w a x u)
    {c : Prog S ε α} : ∀ {w tr}, c.Only A → ¬ c.Blocks exec w tr := by
  induction c with
  | ret v => exact fun _ => id
  | throw e => exact fun _ => id
  | call a k ih =>
    rintro w tr hc (⟨-, hstuck⟩ | ⟨x, u, rest, -, -, h⟩)
    · obtain ⟨x, u, hx⟩ := hA hc.1 w
      exact hstuck x u hx
    · exact ih x (hc.2 x) h

end Prog

end SsdCache.Atomic
