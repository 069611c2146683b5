import Mathlib.Data.List.Basic
import Mathlib.Data.List.Infix
import Mathlib.Algebra.BigOperators.Group.List.Basic
import Mathlib.Algebra.Order.Ring.Nat
import Mathlib.Tactic.Common

/-!
# Loops that stop when they have enough

A loop goes over a list until its state is enough, and every pass moves the state.
`Scanned enough next item s l xs`: from state `s` the loop over `l` makes the passes `xs`,
where a pass knows its list item and whatever else moved the state.

* `Scanned.isPrefix`, `Scanned.unmet`, `Scanned.met`: the passes are for a prefix of the
  list, the loop does not stop early, and it stops only with enough or at the end.
* `Scanned.filter`: passes that do not move the state can be left out.
* `Scanned.agree`: two loops whose states stay related handle the same items.
-/

namespace SsdCache.Loop

variable {α β γ σ τ : Type}

/-- The passes of a loop over a list. -/
inductive Scanned (enough : σ → Prop) (next : σ → β → σ) (item : β → α) :
    σ → List α → List β → Prop
  | done {s : σ} : Scanned enough next item s [] []
  | stop {s : σ} {a : α} {l : List α} : enough s → Scanned enough next item s (a :: l) []
  | step {s : σ} {x : β} {l : List α} {xs : List β} : ¬ enough s →
      Scanned enough next item (next s x) l xs → Scanned enough next item s (item x :: l) (x :: xs)

namespace Scanned

variable {enough : σ → Prop} {next : σ → β → σ} {item : β → α} {s : σ} {l : List α} {xs : List β}

theorem of_enough (hs : enough s) : Scanned enough next item s l [] := by
  cases l with
  | nil => exact .done
  | cons a l => exact .stop hs

/-- The items handled are the first ones of the list. -/
theorem isPrefix (h : Scanned enough next item s l xs) : xs.map item <+: l := by
  induction h with
  | done => exact List.prefix_refl _
  | stop hs => exact List.nil_prefix
  | step hs _ ih =>
    rw [List.map_cons, List.prefix_cons_inj]
    exact ih

/-- The loop goes on only while it has not enough. -/
theorem unmet (h : Scanned enough next item s l xs) :
    ∀ k < xs.length, ¬ enough ((xs.take k).foldl next s) := by
  induction h with
  | done => exact fun k hk => absurd hk (Nat.not_lt_zero k)
  | stop hs => exact fun k hk => absurd hk (Nat.not_lt_zero k)
  | step hs _ ih =>
    intro k hk
    cases k with
    | zero => exact hs
    | succ k =>
      rw [List.take_succ_cons, List.foldl_cons]
      exact ih k (Nat.lt_of_succ_lt_succ hk)

/-- It stops with enough, or at the end of the list. -/
theorem met (h : Scanned enough next item s l xs) :
    enough (xs.foldl next s) ∨ xs.map item = l := by
  induction h with
  | done => exact .inr rfl
  | stop hs => exact .inl hs
  | step hs _ ih =>
    rcases ih with henough | hall
    · exact .inl henough
    · exact .inr (by rw [List.map_cons, hall])

/-- **Passes that do not move the state** can be left out. -/
theorem filter (h : Scanned enough next item s l xs) {keep : α → Bool}
    (hkeep : ∀ x ∈ xs, keep (item x) = false → ∀ s, next s x = s) :
    Scanned enough next item s (l.filter keep) (xs.filter fun x => keep (item x)) := by
  induction h with
  | done => exact .done
  | stop hs => exact of_enough hs
  | @step s x l xs hs _ ih =>
    obtain ⟨hx, hxs⟩ := List.forall_mem_cons.1 hkeep
    cases hitem : keep (item x) with
    | true =>
      rw [List.filter_cons_of_pos hitem,
        List.filter_cons_of_pos (p := fun x => keep (item x)) hitem]
      exact .step hs (ih hxs)
    | false =>
      have hskip : next s x = s := hx hitem s
      have hneg : ¬ keep (item x) = true := by rw [hitem]; exact Bool.false_ne_true
      rw [List.filter_cons_of_neg hneg,
        List.filter_cons_of_neg (p := fun x => keep (item x)) hneg, ← hskip]
      exact ih hxs

/-- **Two loops whose states stay related handle the same items.** -/
theorem agree {enough' : τ → Prop} {next' : τ → γ → τ} {item' : γ → α} {R : σ → τ → Prop}
    (henough : ∀ {s t}, R s t → (enough s ↔ enough' t)) {t : τ} {ys : List γ}
    (h : Scanned enough next item s l xs) (h' : Scanned enough' next' item' t l ys)
    (hnext : ∀ x ∈ xs, ∀ y ∈ ys, item x = item' y → ∀ {s t}, R s t → R (next s x) (next' t y))
    (hst : R s t) : xs.map item = ys.map item' := by
  induction h generalizing t ys with
  | done =>
    cases h' with
    | done => rfl
  | stop hs =>
    cases h' with
    | stop ht => rfl
    | step ht _ => exact absurd ((henough hst).1 hs) ht
  | @step s x l xs hs _ ih =>
    generalize hl : item x :: l = l' at h'
    cases h' with
    | done => cases hl
    | stop ht => exact absurd ((henough hst).2 ht) hs
    | @step t y l' ys ht hrest =>
      obtain ⟨hxy, rfl⟩ := List.cons.inj hl
      have hhead : R (next s x) (next' t y) :=
        hnext x List.mem_cons_self y List.mem_cons_self hxy hst
      have htail := ih hrest (fun x hx y hy => hnext x (List.mem_cons_of_mem _ hx) y
        (List.mem_cons_of_mem _ hy)) hhead
      rw [List.map_cons, List.map_cons, hxy, htail]

end Scanned

/-- The state of a loop that adds up. -/
theorem foldl_add (f : β → ℕ) (xs : List β) (n : ℕ) :
    xs.foldl (fun n x => n + f x) n = n + (xs.map f).sum := by
  induction xs generalizing n with
  | nil => rfl
  | cons x xs ih =>
    rw [List.foldl_cons, ih, List.map_cons, List.sum_cons]
    omega

end SsdCache.Loop
