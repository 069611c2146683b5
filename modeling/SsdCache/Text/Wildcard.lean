import Mathlib.Data.List.Basic
import Mathlib.Data.List.Infix
import Mathlib.Data.List.Forall2
import Mathlib.Tactic.Common

/-!
# Wildcards

A pattern is a list of tokens: `run` takes any text, `one` any symbol, `lit a` the symbol
`a`. `Covers ts s` is the meaning: `s` can be cut into one piece for each token.

* `covers_nil_right`, `covers_single_cons`, `covers_run_cons`: how a token is read off.
* `Covers.drop_singles`: tokens of one symbol each take as many symbols as they are.
* `covers_run_of_later`: **a matcher that comes to a run can forget the earlier runs**: what a
  later start of an earlier run covers, the new run covers too.
-/

namespace SsdCache.Text

/-- What a pattern is made of. -/
inductive Token (α : Type)
  | run
  | one
  | lit (a : α)
  deriving DecidableEq

variable {α : Type} {t : Token α} {ts us : List (Token α)} {a : α} {s r : List α}

/-- The pieces of a text that a token takes. -/
def Token.Takes : Token α → List α → Prop
  | run, _ => True
  | one, s => ∃ a, s = [a]
  | lit a, s => s = [a]

/-- The text can be cut so that every token takes a piece. -/
def Covers (ts : List (Token α)) (s : List α) : Prop :=
  ∃ pieces, pieces.flatten = s ∧ List.Forall₂ Token.Takes ts pieces

@[simp] theorem covers_nil_left : Covers ([] : List (Token α)) s ↔ s = [] := by
  constructor
  · rintro ⟨pieces, rfl, h⟩
    cases h
    rfl
  · rintro rfl
    exact ⟨[], rfl, .nil⟩

theorem covers_cons : Covers (t :: ts) s ↔ ∃ x y, x ++ y = s ∧ t.Takes x ∧ Covers ts y := by
  constructor
  · rintro ⟨pieces, rfl, h⟩
    cases h with
    | cons ht hts => exact ⟨_, _, rfl, ht, _, rfl, hts⟩
  · rintro ⟨x, y, rfl, ht, pieces, rfl, hts⟩
    exact ⟨x :: pieces, rfl, .cons ht hts⟩

/-- Every token but a run takes one symbol. -/
theorem Token.Takes.eq_singleton (ht : t ≠ .run) (h : t.Takes s) : ∃ a, s = [a] := by
  cases t with
  | run => exact absurd rfl ht
  | one => exact h
  | lit a => exact ⟨a, h⟩

theorem covers_single_cons (ht : t ≠ .run) :
    Covers (t :: ts) (a :: s) ↔ t.Takes [a] ∧ Covers ts s := by
  rw [covers_cons]
  constructor
  · rintro ⟨x, y, hxy, hx, hy⟩
    obtain ⟨b, rfl⟩ := hx.eq_singleton ht
    obtain ⟨rfl, rfl⟩ := List.cons.inj hxy
    exact ⟨hx, hy⟩
  · rintro ⟨hx, hy⟩
    exact ⟨[a], s, rfl, hx, hy⟩

theorem not_covers_single_nil (ht : t ≠ .run) : ¬ Covers (t :: ts) ([] : List α) := by
  rw [covers_cons]
  rintro ⟨x, y, hxy, hx, -⟩
  obtain ⟨b, rfl⟩ := hx.eq_singleton ht
  cases hxy

/-! ## Runs -/

/-- A run takes a beginning and leaves the end. -/
theorem covers_run : Covers (.run :: ts) s ↔ ∃ r, r <:+ s ∧ Covers ts r := by
  rw [covers_cons]
  constructor
  · rintro ⟨x, y, hxy, -, hy⟩
    exact ⟨y, ⟨x, hxy⟩, hy⟩
  · rintro ⟨y, ⟨x, hxy⟩, hy⟩
    exact ⟨x, y, hxy, trivial, hy⟩

theorem Covers.run_mono (h : Covers (.run :: ts) r) (hr : r <:+ s) : Covers (.run :: ts) s := by
  rw [covers_run] at h ⊢
  obtain ⟨q, hq, hc⟩ := h
  exact ⟨q, hq.trans hr, hc⟩

/-- A run takes no symbol, or the next one and goes on. -/
theorem covers_run_cons :
    Covers (.run :: ts) (a :: s) ↔ Covers ts (a :: s) ∨ Covers (.run :: ts) s := by
  simp only [covers_run, List.suffix_cons_iff]
  constructor
  · rintro ⟨r, rfl | hr, hc⟩
    · exact .inl hc
    · exact .inr ⟨r, hr, hc⟩
  · rintro (hc | ⟨r, hr, hc⟩)
    · exact ⟨_, .inl rfl, hc⟩
    · exact ⟨r, .inr hr, hc⟩

/-- The empty text is covered by runs alone. -/
theorem covers_nil_right : Covers ts ([] : List α) ↔ ∀ t ∈ ts, t = .run := by
  induction ts with
  | nil => simp
  | cons t ts ih =>
    rw [List.forall_mem_cons]
    by_cases ht : t = .run
    · subst ht
      have hrun : Covers (.run :: ts) ([] : List α) ↔ Covers ts [] := by
        rw [covers_run]
        simp
      rw [hrun, ih]
      exact ⟨fun h => ⟨rfl, h⟩, And.right⟩
    · exact iff_of_false (not_covers_single_nil ht) fun h => ht h.1

/-! ## Forgetting runs -/

/-- Tokens of one symbol each take as many symbols as they are. -/
theorem Covers.drop_singles (hus : .run ∉ us) (h : Covers (us ++ ts) s) :
    ∃ r, r <:+ s ∧ r.length + us.length = s.length ∧ Covers ts r := by
  induction us generalizing s with
  | nil => exact ⟨s, List.suffix_rfl, rfl, h⟩
  | cons u us ih =>
    have hu : u ≠ .run := fun heq => hus (heq ▸ List.mem_cons_self)
    cases s with
    | nil => exact absurd h (not_covers_single_nil hu)
    | cons a s =>
      rw [List.cons_append, covers_single_cons hu] at h
      obtain ⟨r, hr, hlen, hc⟩ := ih (fun hm => hus (List.mem_cons_of_mem u hm)) h.2
      refine ⟨r, hr.trans (List.suffix_cons a s), ?_, hc⟩
      rw [List.length_cons, List.length_cons]
      omega

/-- What is shorter than the tokens of one symbol each is not covered. -/
theorem not_covers_run_of_short (hus : .run ∉ us) (hs : s.length < us.length) :
    ¬ Covers (.run :: (us ++ ts)) s := by
  intro h
  obtain ⟨r, hr, hc⟩ := covers_run.1 h
  obtain ⟨q, -, hlen, -⟩ := hc.drop_singles hus
  have := hr.length_le
  omega

/-- **A later start of an earlier run**: `us` took as much of the text as is before `s`, and a
run comes next. What the earlier run covers by taking more, the next run covers on `s`. -/
theorem covers_run_of_later {x : List α} (hus : .run ∉ us) (hx : x.length = us.length)
    (hr : r <:+ x ++ s) (h : Covers (.run :: (us ++ .run :: ts)) r) : Covers (.run :: ts) s := by
  obtain ⟨q, hq, hc⟩ := covers_run.1 h
  obtain ⟨z, hz, hlen, hc⟩ := hc.drop_singles hus
  have hzx : z <:+ x ++ s := (hz.trans hq).trans hr
  have hqx : q.length ≤ (x ++ s).length := (hq.trans hr).length_le
  rw [List.length_append] at hqx
  have hzs : z <:+ s := List.suffix_of_suffix_length_le hzx (List.suffix_append x s) (by omega)
  exact hc.run_mono hzs

end SsdCache.Text
