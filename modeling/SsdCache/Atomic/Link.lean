import SsdCache.Atomic.Machine

/-!
# Machines that send messages

A `Link` lets one machine send messages to another: a step of the first may put a message into
a queue, and a step of the second may take the oldest one out of it. Messages may be lost from
the queue. Otherwise the machines run independently.

* `LinkRun.left`, `LinkRun.right`: each of them runs as it does alone.
* `LinkRun.fifo`: **what was taken and what is still in the queue was sent**, in this order.
* `linkRun_of_runs`: first the sender runs, then the receiver.
-/

namespace SsdCache.Atomic

variable {S₁ S₂ : Sig} {ε₁ ε₂ W₁ W₂ T₁ T₂ C₁ C₂ : Type}

/-- The messages of the steps of two machines. -/
structure Link (S₁ : Sig) (ε₁ T₁ C₁ : Type) (S₂ : Sig) (ε₂ T₂ C₂ Msg : Type) where
  sends : Label S₁ ε₁ T₁ C₁ → Option Msg
  takes : Label S₂ ε₂ T₂ C₂ → Option Msg

namespace Link

variable {Msg : Type} (L : Link S₁ ε₁ T₁ C₁ S₂ ε₂ T₂ C₂ Msg)

/-- What was sent, oldest first. -/
def sent : Hist S₁ ε₁ W₁ T₁ C₁ → List Msg
  | [] => []
  | (_, l) :: h => sent h ++ (L.sends l).toList

/-- What was taken, oldest first. -/
def taken : Hist S₂ ε₂ W₂ T₂ C₂ → List Msg
  | [] => []
  | (_, l) :: h => taken h ++ (L.takes l).toList

/-- A message that was sent was sent by a step. -/
theorem mem_sent {h₁ : Hist S₁ ε₁ W₁ T₁ C₁} {m : Msg} (hm : m ∈ L.sent h₁) :
    ∃ h w l, (w, l) :: h <:+ h₁ ∧ L.sends l = some m := by
  induction h₁ with
  | nil => exact absurd hm List.not_mem_nil
  | cons x h ih =>
    obtain ⟨w, l⟩ := x
    rw [sent, List.mem_append, Option.mem_toList] at hm
    rcases hm with hm | hm
    · obtain ⟨h', w', l', hsuffix, hsends⟩ := ih hm
      exact ⟨h', w', l', hsuffix.trans (List.suffix_cons _ _), hsends⟩
    · exact ⟨h, w, l, List.suffix_refl _, hm⟩

end Link

/-- What every step of a history satisfies. -/
theorem Meets.at {P : Hist S₁ ε₁ W₁ T₁ C₁ → W₁ → Label S₁ ε₁ T₁ C₁ → Prop}
    {h₁ h : Hist S₁ ε₁ W₁ T₁ C₁} {w : W₁} {l : Label S₁ ε₁ T₁ C₁} (hm : Meets P h₁)
    (hs : (w, l) :: h <:+ h₁) : P h w l := by
  induction h₁ with
  | nil => exact absurd (List.suffix_nil.1 hs) (List.cons_ne_nil _ _)
  | cons x h' ih =>
    rcases List.suffix_cons_iff.1 hs with heq | hs
    · cases heq
      exact hm.1
    · exact ih hm.2 hs

structure LinkState (S₁ : Sig) (ε₁ W₁ T₁ : Type) (S₂ : Sig) (ε₂ W₂ T₂ Msg : Type) where
  left : Config S₁ ε₁ W₁ T₁
  right : Config S₂ ε₂ W₂ T₂
  queue : List Msg

variable {Msg : Type} [DecidableEq T₁] [DecidableEq T₂]

/-- The runs of two linked machines, each with its own history. -/
inductive LinkRun (L : Link S₁ ε₁ T₁ C₁ S₂ ε₂ T₂ C₂ Msg) (M₁ : Machine S₁ ε₁ W₁ T₁ C₁)
    (M₂ : Machine S₂ ε₂ W₂ T₂ C₂) (c₀ : LinkState S₁ ε₁ W₁ T₁ S₂ ε₂ W₂ T₂ Msg) :
    Hist S₁ ε₁ W₁ T₁ C₁ → Hist S₂ ε₂ W₂ T₂ C₂ → LinkState S₁ ε₁ W₁ T₁ S₂ ε₂ W₂ T₂ Msg → Prop
  | init : LinkRun L M₁ M₂ c₀ [] [] c₀
  | send {h₁ h₂ c c' l} : LinkRun L M₁ M₂ c₀ h₁ h₂ c → Step M₁ c.left l c' →
      LinkRun L M₁ M₂ c₀ ((c.left.world, l) :: h₁) h₂
        { c with left := c', queue := c.queue ++ (L.sends l).toList }
  | take {h₁ h₂ c c' l queue} : LinkRun L M₁ M₂ c₀ h₁ h₂ c → Step M₂ c.right l c' →
      c.queue = (L.takes l).toList ++ queue →
      LinkRun L M₁ M₂ c₀ h₁ ((c.right.world, l) :: h₂) { c with right := c', queue }
  | lose {h₁ h₂ c queue} : LinkRun L M₁ M₂ c₀ h₁ h₂ c → queue.Sublist c.queue →
      LinkRun L M₁ M₂ c₀ h₁ h₂ { c with queue }

variable {L : Link S₁ ε₁ T₁ C₁ S₂ ε₂ T₂ C₂ Msg} {M₁ : Machine S₁ ε₁ W₁ T₁ C₁}
variable {M₂ : Machine S₂ ε₂ W₂ T₂ C₂} {c₀ c : LinkState S₁ ε₁ W₁ T₁ S₂ ε₂ W₂ T₂ Msg}
variable {h₁ : Hist S₁ ε₁ W₁ T₁ C₁} {h₂ : Hist S₂ ε₂ W₂ T₂ C₂}

theorem LinkRun.left (hrun : LinkRun L M₁ M₂ c₀ h₁ h₂ c) : Run M₁ c₀.left h₁ c.left := by
  induction hrun with
  | init => exact .init
  | send _ hs ih => exact .step ih hs
  | take _ _ _ ih | lose _ _ ih => exact ih

theorem LinkRun.right (hrun : LinkRun L M₁ M₂ c₀ h₁ h₂ c) : Run M₂ c₀.right h₂ c.right := by
  induction hrun with
  | init => exact .init
  | take _ hs _ ih => exact .step ih hs
  | send _ _ ih | lose _ _ ih => exact ih

/-- **No message is forged, doubled or overtaken.** -/
theorem LinkRun.fifo (h0 : c₀.queue = []) (hrun : LinkRun L M₁ M₂ c₀ h₁ h₂ c) :
    (L.taken h₂ ++ c.queue).Sublist (L.sent h₁) := by
  induction hrun with
  | init =>
    rw [Link.sent, Link.taken, h0]
    exact List.Sublist.refl []
  | send _ _ ih =>
    rw [Link.sent, ← List.append_assoc]
    exact ih.append (List.Sublist.refl _)
  | take _ _ hq ih => rwa [Link.taken, List.append_assoc, ← hq]
  | lose _ hq ih => exact (hq.append_left _).trans ih

/-- The sender runs alone. -/
theorem linkRun_of_left {a : Config S₁ ε₁ W₁ T₁} (hrun : Run M₁ c₀.left h₁ a) :
    LinkRun L M₁ M₂ c₀ h₁ [] { c₀ with left := a, queue := c₀.queue ++ L.sent h₁ } := by
  induction hrun with
  | init =>
    have hempty : c₀.queue ++ L.sent ([] : Hist S₁ ε₁ W₁ T₁ C₁) = c₀.queue := List.append_nil _
    rw [hempty]
    exact .init
  | @step h a a' l _ hs ih =>
    have hnext := LinkRun.send ih hs
    rwa [List.append_assoc] at hnext

/-- **A run of the sender, then one of the receiver** that takes a beginning of what was sent. -/
theorem linkRun_of_runs {a : Config S₁ ε₁ W₁ T₁} {b : Config S₂ ε₂ W₂ T₂} {queue : List Msg}
    (h0 : c₀.queue = []) (hleft : Run M₁ c₀.left h₁ a) (hright : Run M₂ c₀.right h₂ b)
    (hq : L.sent h₁ = L.taken h₂ ++ queue) : LinkRun L M₁ M₂ c₀ h₁ h₂ ⟨a, b, queue⟩ := by
  induction hright generalizing queue with
  | init =>
    have hsent : LinkRun L M₁ M₂ c₀ h₁ [] { c₀ with left := a, queue := c₀.queue ++ L.sent h₁ } :=
      linkRun_of_left hleft
    rw [h0, List.nil_append, hq] at hsent
    exact hsent
  | @step h b b' l _ hs ih =>
    rw [Link.taken, List.append_assoc] at hq
    exact LinkRun.take (ih hq) hs rfl

end SsdCache.Atomic
