import SsdCache.Atomic.Machine
import SsdCache.Atomic.Sum

/-!
# Local states

A `Protocol` follows one thread through its own actions: `next` is the thread's local
state after an action, `allows` says which actions the local state permits. A program
that is `Safe` for the protocol's contract keeps to it whatever the world answers, so
that in every run each thread is where its own history has brought it (`Protocol.run`).
What a thread holds, and what it owes the others, are local states.
-/

namespace SsdCache.Atomic

/-- A local state for idle threads, how an action moves it, what it permits, and which
answers an action can have. -/
structure Protocol (S : Sig) (ε Q : Type) where
  rest : Q
  next : Q → (a : S.Act) → Except ε (S.Resp a) → Q
  allows : Q → S.Act → Prop
  answers : (a : S.Act) → Except ε (S.Resp a) → Prop

namespace Protocol

variable {S : Sig} {ε W T C Q α : Type}

/-- The contract of a thread over its local state: nobody else moves it. -/
def contract (P : Protocol S ε Q) : Contract S ε Q where
  rely := Eq
  step q a r q' := P.answers a r ∧ q' = P.next q a r
  keep q a _ _ := P.allows q a
  refl := Eq.refl
  trans := Eq.trans

variable {P : Protocol S ε Q} {E : Q → Prop} {q : Q}

/-- **One action, then the rest**: an exception of the action ends the program. -/
theorem safe_then {β : Type} {R : Except ε β → Q → Prop} {a : S.Act} {f : S.Resp a → Prog S ε β}
    (ha : P.allows q a)
    (herror : ∀ e, P.answers a (.error e) → R (.error e) (P.next q a (.error e)))
    (hok : ∀ v, P.answers a (.ok v) → (f v).Safe P.contract R (P.next q a (.ok v))) :
    ((Prog.perform a).bind f).Safe P.contract R q := by
  rintro q' rfl r z ⟨hr, rfl⟩
  refine ⟨ha, ?_⟩
  cases r with
  | ok v => exact hok v hr
  | error e => rintro _ rfl; exact herror e hr

/-- One action, whatever it answers. -/
theorem safe_call {R : Except ε α → Q → Prop} {a : S.Act} {k : Except ε (S.Resp a) → Prog S ε α}
    (ha : P.allows q a) (hk : ∀ r, P.answers a r → (k r).Safe P.contract R (P.next q a r)) :
    (Prog.call a k).Safe P.contract R q := by
  rintro q' rfl r z ⟨hr, rfl⟩
  exact ⟨ha, hk r hr⟩

/-- One action at the end. -/
theorem safe_last {a : S.Act} {R : Except ε (S.Resp a) → Q → Prop} (ha : P.allows q a)
    (hR : ∀ r, P.answers a r → R r (P.next q a r)) : (Prog.perform a).Safe P.contract R q := by
  rintro q' rfl r z ⟨hr, rfl⟩
  refine ⟨ha, ?_⟩
  cases r with
  | ok v => rintro _ rfl; exact hR _ hr
  | error e => rintro _ rfl; exact hR _ hr

/-- The end. -/
theorem safe_end {R : Except ε α → Q → Prop} {v : α} (hR : R (.ok v) q) :
    (Prog.ret v : Prog S ε α).Safe P.contract R q := by
  rintro _ rfl
  exact hR

theorem stable (X : Q → Prop) : P.contract.Stable X := by
  rintro q _ rfl hq
  exact hq

/-- A program whose actions leave the local state. -/
theorem safe_only {A : S.Act → Prop} (hA : ∀ {a}, A a → P.allows q a ∧ ∀ r, P.next q a r = q)
    {c : Prog S ε α} : c.Only A → c.Safe P.contract (fun _ q' => q' = q) q := by
  induction c with
  | ret v => exact fun _ _ hq => hq.symm
  | throw e => exact fun _ _ hq => hq.symm
  | call a k ih =>
    rintro hc q' rfl r z ⟨-, rfl⟩
    refine ⟨(hA hc.1).1, ?_⟩
    rw [(hA hc.1).2 r]
    exact ih r (hc.2 r)

/-- Such a program, then the rest. -/
theorem safe_only_then {β : Type} {R : Except ε β → Q → Prop} {A : S.Act → Prop}
    (hA : ∀ {a}, A a → P.allows q a ∧ ∀ r, P.next q a r = q) {c : Prog S ε α} {f : α → Prog S ε β}
    (hc : c.Only A) (herror : ∀ e, R (.error e) q) (hf : ∀ v, (f v).Safe P.contract R q) :
    (c.bind f).Safe P.contract R q := by
  refine Prog.safe_bind (Prog.safe_mono (fun r z hz => ?_) (safe_only hA hc))
  subst hz
  cases r with
  | ok v => exact hf v
  | error e => rintro _ rfl; exact herror e

/-- The protocol for programs over a sum that ask only actions of `S`. -/
def onLeft {T : Sig} (P : Protocol S ε Q) : Protocol (S.sum T) ε Q where
  rest := P.rest
  next
    | q, .inl a, r => P.next q a r
    | q, .inr _, _ => q
  allows
    | q, .inl a => P.allows q a
    | _, .inr _ => False
  answers
    | .inl a, r => P.answers a r
    | .inr _, _ => True

theorem safe_onLeft {T : Sig} {c : Prog S ε α} (hc : c.Safe P.contract (fun _ => E) q) :
    (c.left (T := T)).Safe P.onLeft.contract (fun _ => E) q :=
  Prog.safe_left (K := P.onLeft.contract) hc

/-- The result of a program as a value of its attempt. -/
def attempted {X : Type} (R : Except ε α → X → Prop) : Except ε (Except ε α) → X → Prop
  | .ok r, x => R r x
  | .error _, _ => False

theorem safe_attempted {X : Type} {K : Contract S ε X} {R : Except ε α → X → Prop}
    {c : Prog S ε α} : ∀ {x}, c.Safe K R x → c.attempt.Safe K (attempted R) x := by
  induction c with
  | ret v => exact id
  | throw e => exact id
  | call a k ih =>
    intro x h y hy r z hs
    obtain ⟨hk, hrest⟩ := h y hy r z hs
    exact ⟨hk, ih r hrest⟩

/-- **Programs in place of actions**: if from `I q` the program of every action that `q` allows
ends in `I` of the next local state, then a program that is safe for the protocol ends,
expanded, in `I` of a local state that it ends in. -/
theorem safe_expand {T : Sig} {X : Type} {K : Contract T ε X} {I : Q → X → Prop}
    (hP : ∀ a, ∃ r, P.answers a r) (hI : ∀ q, K.Stable (I q))
    {f : (a : S.Act) → Prog T ε (S.Resp a)}
    (hf : ∀ {a q x}, P.allows q a → I q x →
      (f a).Safe K (fun r z => P.answers a r ∧ I (P.next q a r) z) x) {c : Prog S ε α} :
    ∀ {q x}, c.Safe P.contract (fun _ => E) q → I q x →
      (c.expand f).Safe K (fun _ z => ∃ q', E q' ∧ I q' z) x := by
  induction c with
  | ret v => exact fun {q x} hc hx y hy => ⟨q, hc q rfl, hI q hy hx⟩
  | throw e => exact fun {q x} hc hx y hy => ⟨q, hc q rfl, hI q hy hx⟩
  | call a k ih =>
    intro q x hc hx
    obtain ⟨r₀, hr₀⟩ := hP a
    have ha : P.allows q a := (hc.next ⟨hr₀, rfl⟩).1
    refine Prog.safe_bind (Prog.safe_mono ?_ (safe_attempted (hf ha hx)))
    intro r z hz
    cases r with
    | ok r =>
      obtain ⟨hanswers, hIz⟩ := hz
      exact ih r (hc.next ⟨hanswers, rfl⟩).2 hIz
    | error e => exact hz.elim

/-- From local state `q` the program keeps to the protocol, and ends where it rests. -/
def Follows (P : Protocol S ε Q) (c : Prog S ε α) (q : Q) : Prop :=
  c.Safe P.contract (fun _ q => q = P.rest) q

theorem follows_ret {P : Protocol S ε Q} (v : α) : P.Follows (.ret v : Prog S ε α) P.rest :=
  fun _ hq => hq.symm

theorem follows_throw {P : Protocol S ε Q} (e : ε) : P.Follows (.throw e : Prog S ε α) P.rest :=
  fun _ hq => hq.symm

/-- **One action, then the rest.** -/
theorem follows_call {P : Protocol S ε Q} {a : S.Act} {k : Except ε (S.Resp a) → Prog S ε α} {q : Q}
    (ha : P.allows q a) (hk : ∀ r, P.answers a r → P.Follows (k r) (P.next q a r)) :
    P.Follows (.call a k) q := safe_call ha hk

/-- The same for an action that does not throw. -/
theorem follows_ok {P : Protocol S ε Q} {a : S.Act} {k : Except ε (S.Resp a) → Prog S ε α} {q : Q}
    (ha : P.allows q a) (hr : ∀ e, ¬ P.answers a (.error e))
    (hk : ∀ v, P.Follows (k (.ok v)) (P.next q a (.ok v))) : P.Follows (.call a k) q := by
  refine follows_call ha fun r hanswer => ?_
  cases r with
  | ok v => exact hk v
  | error e => exact absurd hanswer (hr e)

/-- **Sequencing**: a part that follows the protocol ends where the thread rests. -/
theorem Follows.bind {β : Type} {c : Prog S ε α} {f : α → Prog S ε β} (hc : P.Follows c q)
    (hf : ∀ v, P.Follows (f v) P.rest) : P.Follows (c.bind f) q := by
  refine Prog.safe_bind (Prog.safe_mono (fun r z hz => ?_) hc)
  subst hz
  cases r with
  | ok v => exact hf v
  | error e => rintro _ rfl; rfl

theorem Follows.tryCatch {c : Prog S ε α} {f : ε → Prog S ε α} (hc : P.Follows c q)
    (hf : ∀ e, P.Follows (f e) P.rest) : P.Follows (c.tryCatch f) q := by
  refine Prog.safe_tryCatch (Prog.safe_mono (fun r z hz => ?_) hc)
  subst hz
  cases r with
  | ok v => rfl
  | error e => exact hf e

/-- Actions that the rest allows and that leave it. -/
theorem follows_only {A : S.Act → Prop} {c : Prog S ε α} (hc : c.Only A)
    (hA : ∀ {a}, A a → P.allows P.rest a ∧ ∀ r, P.next P.rest a r = P.rest) :
    P.Follows c P.rest :=
  safe_only hA hc

variable [DecidableEq T]

/-- Where its own actions have brought thread `t`. -/
def localState (P : Protocol S ε Q) (t : T) : Hist S ε W T C → Q
  | [] => P.rest
  | (_, .act u a r) :: h => if u = t then P.next (localState P t h) a r else localState P t h
  | (_, .call _ _) :: h | (_, .env) :: h => localState P t h

variable {h : Hist S ε W T C} {w : W} {t u : T} {a : S.Act}
variable {r : Except ε (S.Resp a)}

theorem localState_self : P.localState t ((w, .act t a r) :: h) = P.next (P.localState t h) a r :=
  if_pos rfl

theorem localState_ne (hu : u ≠ t) : P.localState t ((w, .act u a r) :: h) = P.localState t h :=
  if_neg hu

/-- The thread of an action. -/
def actor : Label S ε T C → Option T
  | .act t _ _ => some t
  | _ => none

/-- A thread that has not acted is at rest. -/
theorem localState_of_not_mem (ht : t ∉ h.filterMap fun x => actor x.2) :
    P.localState t h = P.rest := by
  induction h with
  | nil => rfl
  | cons x h ih =>
    obtain ⟨w, l⟩ := x
    cases l with
    | act u a r =>
      simp only [List.filterMap_cons, actor, List.mem_cons, not_or] at ht
      rw [localState_ne (Ne.symm ht.1)]
      exact ih ht.2
    | call u o => exact ih ht
    | env => exact ih ht

/-- What a program is allowed to ask next, when the action has an answer at all. -/
theorem Follows.allows {k : Except ε (S.Resp a) → Prog S ε α} {q : Q}
    (hf : P.Follows (.call a k) q) (ha : P.answers a r) :
    P.allows q a ∧ P.Follows (k r) (P.next q a r) :=
  hf.next ⟨ha, rfl⟩

theorem Follows.rests {c : Prog S ε α} {q : Q} (hf : P.Follows c q) (hd : c.Done) : q = P.rest := by
  obtain ⟨-, hq⟩ := hf.done hd
  exact hq

variable {M : Machine S ε W T C} {c₀ c : Config S ε W T}

/-- **In every run a thread keeps to the protocol** from its local state, when its operations
leave `E` as they find it. -/
theorem safe_of_run (hanswers : ∀ {w a r w'}, M.exec w a r w' → P.answers a r)
    (hbody : ∀ {c o q}, M.menu t c o → E q → (M.body o).Safe P.contract (fun _ => E) q)
    (h0 : (c₀.prog t).Safe P.contract (fun _ => E) P.rest) (hrun : Run M c₀ h c) :
    (c.prog t).Safe P.contract (fun _ => E) (P.localState t h) := by
  induction hrun with
  | init => exact h0
  | @step h c c' l hrun hs ih =>
    cases hs with
    | @call u o hd hm =>
      by_cases htu : t = u
      · -- the thread was between two operations
        subst htu
        rw [Config.become_self]
        obtain ⟨-, hE⟩ := ih.done hd
        exact hbody hm hE
      · rw [Config.become_ne c htu]
        exact ih
    | @act u a k r w' hk hx =>
      by_cases htu : t = u
      · subst htu
        rw [Config.become_self, localState_self]
        rw [hk] at ih
        exact (ih.next ⟨hanswers hx, rfl⟩).2
      · rw [Config.become_ne c htu, localState_ne (Ne.symm htu)]
        exact ih
    | env he => exact ih

/-- What a thread does is what its local state allows. -/
def Allowed (P : Protocol S ε Q) (t : T) (h : Hist S ε W T C) (_ : W) (l : Label S ε T C) : Prop :=
  ∀ (a : S.Act) r, l = .act t a r → P.allows (P.localState t h) a

theorem allowed_of_run (hanswers : ∀ {w a r w'}, M.exec w a r w' → P.answers a r)
    (hbody : ∀ {c o q}, M.menu t c o → E q → (M.body o).Safe P.contract (fun _ => E) q)
    (h0 : (c₀.prog t).Safe P.contract (fun _ => E) P.rest) (hrun : Run M c₀ h c) :
    Meets (P.Allowed t) h := by
  induction hrun with
  | init => trivial
  | @step h c c' l hrun hs ih =>
    refine ⟨?_, ih⟩
    rintro a r rfl
    cases hs with
    | act hk hx =>
      have hf : (c.prog t).Safe P.contract (fun _ => E) (P.localState t h) :=
        safe_of_run hanswers hbody h0 hrun
      rw [hk] at hf
      exact (hf.next ⟨hanswers hx, rfl⟩).1

/-- **In every run each thread keeps to the protocol**, from idle threads and when every
operation ends where the thread rests. -/
theorem run (hanswers : ∀ {w a r w'}, M.exec w a r w' → P.answers a r)
    (hbody : ∀ {t c o}, M.menu t c o → P.Follows (M.body o) P.rest)
    (hrun : Run M (.idle w) h c) (t : T) : P.Follows (c.prog t) (P.localState t h) := by
  have hidle : P.Follows ((Config.idle w : Config S ε W T).prog t) P.rest := follows_ret ()
  refine safe_of_run hanswers (fun {_ _ q} hm hq => ?_) hidle hrun
  rw [hq]
  exact hbody hm

/-- What a thread does in a run is what its local state allows. -/
def Keeps (P : Protocol S ε Q) (h : Hist S ε W T C) (_ : W) (l : Label S ε T C) : Prop :=
  ∀ t (a : S.Act) r, l = .act t a r → P.allows (P.localState t h) a

theorem keeps_of_run (hanswers : ∀ {w a r w'}, M.exec w a r w' → P.answers a r)
    (hbody : ∀ {t c o}, M.menu t c o → P.Follows (M.body o) P.rest)
    (hrun : Run M (.idle w) h c) : Meets P.Keeps h := by
  refine meets_forall fun t => ?_
  have hidle : P.Follows ((Config.idle w : Config S ε W T).prog t) P.rest := follows_ret ()
  refine allowed_of_run hanswers (fun {_ _ q} hm hq => ?_) hidle hrun
  rw [hq]
  exact hbody hm

end Protocol

end SsdCache.Atomic
