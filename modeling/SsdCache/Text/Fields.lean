import Mathlib.Data.List.Basic
import Mathlib.Data.List.DropRight
import Mathlib.Data.List.TakeWhile
import Mathlib.Tactic.Common

/-!
# Separated fields

A text over some alphabet is cut into fields by a separator. `Spells sep cs s` is the
grammar: `s` is the fields `cs` in order, none of them empty, with at least one separator
between two fields and any number of them before and after.

* `Spells.unique`: a text spells one list of fields.
* `Spells.skip`, `Spells.take`: what a scanner does that skips separators and takes a field.
* `spells_joined`: fields joined by single separators spell themselves.
-/

namespace SsdCache.Text

variable {α : Type} {sep : α} {c d : List α} {cs ds : List (List α)} {s : List α}

/-- The text is empty or goes on with a separator. -/
def AtBreak (sep : α) : List α → Prop
  | [] => True
  | x :: _ => x = sep

/-- A field: not empty, and without separators. -/
structure IsField (sep : α) (c : List α) : Prop where
  ne_nil : c ≠ []
  free : sep ∉ c

/-- The text `s` spells the fields `cs`. -/
inductive Spells (sep : α) : List (List α) → List α → Prop
  | nil : Spells sep [] []
  | sep {cs : List (List α)} {s : List α} : Spells sep cs s → Spells sep cs (sep :: s)
  | field {c : List α} {cs : List (List α)} {s : List α} : IsField sep c → AtBreak sep s →
      Spells sep cs s → Spells sep (c :: cs) (c ++ s)

theorem Spells.isField (h : Spells sep cs s) : ∀ c ∈ cs, IsField sep c := by
  induction h with
  | nil => exact fun _ hc => absurd hc List.not_mem_nil
  | sep _ ih => exact ih
  | field hf _ _ ih => exact List.forall_mem_cons.2 ⟨hf, ih⟩

/-- The symbols of a field are symbols of the text. -/
theorem Spells.subset (h : Spells sep cs s) : ∀ c ∈ cs, c ⊆ s := by
  induction h with
  | nil => exact fun _ hc => absurd hc List.not_mem_nil
  | sep _ ih => exact fun c hc => List.Subset.trans (ih c hc) (List.subset_cons_self _ _)
  | field _ _ _ ih =>
    refine List.forall_mem_cons.2 ⟨List.subset_append_left _ _, fun d hd => ?_⟩
    exact List.Subset.trans (ih d hd) (List.subset_append_right _ _)

/-- Separators spell no fields. -/
theorem spells_nil_iff : Spells sep [] s ↔ ∀ x ∈ s, x = sep := by
  constructor
  · intro h
    generalize hcs : ([] : List (List α)) = cs at h
    induction h with
    | nil => exact fun _ hx => absurd hx List.not_mem_nil
    | sep _ ih => exact List.forall_mem_cons.2 ⟨rfl, ih hcs⟩
    | field => cases hcs
  · intro h
    induction s with
    | nil => exact .nil
    | cons x s ih =>
      obtain ⟨rfl, hs⟩ := List.forall_mem_cons.1 h
      exact .sep (ih hs)

/-- Two texts that begin with a field and then break have the same field and rest. -/
theorem field_unique (hc : sep ∉ c) (hd : sep ∉ d) {s' : List α} (hs : AtBreak sep s)
    (hs' : AtBreak sep s') (h : c ++ s = d ++ s') : c = d ∧ s = s' := by
  induction c generalizing d with
  | nil =>
    cases d with
    | nil => exact ⟨rfl, h⟩
    | cons y d =>
      -- `s` would begin with `y`, which is no separator
      cases s with
      | nil => cases h
      | cons x s =>
        obtain ⟨rfl, -⟩ := List.cons.inj h
        exact absurd (show x = sep from hs) fun hx => hd (hx ▸ List.mem_cons_self)
  | cons x c ih =>
    cases d with
    | nil =>
      cases s' with
      | nil => cases h
      | cons y s' =>
        obtain ⟨rfl, -⟩ := List.cons.inj h
        exact absurd (show x = sep from hs') fun hx => hc (hx ▸ List.mem_cons_self)
    | cons y d =>
      obtain ⟨rfl, htail⟩ := List.cons.inj h
      obtain ⟨rfl, rfl⟩ := ih (fun hm => hc (List.mem_cons_of_mem x hm))
        (fun hm => hd (List.mem_cons_of_mem x hm)) htail
      exact ⟨rfl, rfl⟩

/-- A field does not begin with a separator. -/
theorem IsField.head_ne (hc : IsField sep c) {x : α} {t : List α} (h : c ++ s = x :: t) :
    x ≠ sep := by
  cases c with
  | nil => exact absurd rfl hc.ne_nil
  | cons y c =>
    obtain ⟨rfl, -⟩ := List.cons.inj h
    exact fun hx => hc.free (hx ▸ List.mem_cons_self)

/-- **A text spells one list of fields.** -/
theorem Spells.unique (h : Spells sep cs s) : ∀ {ds}, Spells sep ds s → cs = ds := by
  induction h with
  | nil =>
    intro ds hd
    generalize hs : ([] : List α) = s at hd
    cases hd with
    | nil => rfl
    | sep => cases hs
    | field hf => exact absurd (List.append_eq_nil_iff.1 hs.symm).1 hf.ne_nil
  | @sep cs s _ ih =>
    intro ds hd
    generalize hs : sep :: s = s' at hd
    cases hd with
    | nil => cases hs
    | sep hd => cases hs; exact ih hd
    | field hf => exact absurd rfl (hf.head_ne hs.symm)
  | @field c cs s hf hb _ ih =>
    intro ds hd
    generalize hs : c ++ s = s' at hd
    cases hd with
    | nil => exact absurd (List.append_eq_nil_iff.1 hs).1 hf.ne_nil
    | sep => exact absurd rfl (hf.head_ne hs)
    | field hf' hb' hd =>
      obtain ⟨rfl, rfl⟩ := field_unique hf.free hf'.free hb hb' hs
      rw [ih hd]

/-! ## Joining -/

theorem AtBreak.append {t : List α} (hs : AtBreak sep s) (ht : AtBreak sep t) :
    AtBreak sep (s ++ t) := by
  cases s with
  | nil => exact ht
  | cons => exact hs

/-- A text put after another, at a separator. -/
theorem Spells.append {t : List α} (h : Spells sep cs s) (ht : AtBreak sep t)
    (hds : Spells sep ds t) : Spells sep (cs ++ ds) (s ++ t) := by
  induction h with
  | nil => exact hds
  | sep _ ih => exact .sep ih
  | field hf hb _ ih =>
    rw [List.append_assoc]
    exact .field hf (hb.append ht) ih

/-- Separators at the end change nothing. -/
theorem Spells.append_seps (h : Spells sep cs s) {t : List α} (ht : ∀ x ∈ t, x = sep) :
    Spells sep cs (s ++ t) := by
  have hb : AtBreak sep t := by
    cases t with
    | nil => trivial
    | cons x t => exact ht x List.mem_cons_self
  simpa using h.append hb (spells_nil_iff.2 ht)

/-- The fields with one separator between two of them. -/
def joined (sep : α) (cs : List (List α)) : List α := [sep].intercalate cs

theorem joined_cons_cons (sep : α) (c d : List α) (cs : List (List α)) :
    joined sep (c :: d :: cs) = c ++ sep :: joined sep (d :: cs) := by
  simp [joined, List.intercalate, List.intersperse]

theorem mem_joined {x : α} (h : x ∈ joined sep cs) : x = sep ∨ ∃ c ∈ cs, x ∈ c := by
  induction cs with
  | nil => cases h
  | cons c cs ih =>
    cases cs with
    | nil => exact .inr ⟨c, List.mem_cons_self, by simpa [joined] using h⟩
    | cons d cs =>
      rw [joined_cons_cons, List.mem_append, List.mem_cons] at h
      rcases h with hc | rfl | hd
      · exact .inr ⟨c, List.mem_cons_self, hc⟩
      · exact .inl rfl
      · exact (ih hd).imp id fun ⟨e, he, hx⟩ => ⟨e, List.mem_cons_of_mem _ he, hx⟩

theorem spells_joined (h : ∀ c ∈ cs, IsField sep c) : Spells sep cs (joined sep cs) := by
  induction cs with
  | nil => exact .nil
  | cons c cs ih =>
    obtain ⟨hc, hcs⟩ := List.forall_mem_cons.1 h
    cases cs with
    | nil =>
      have hb : AtBreak sep [] := trivial
      simpa [joined] using Spells.field hc hb .nil
    | cons d cs =>
      rw [joined_cons_cons]
      exact .field hc rfl (.sep (ih hcs))

/-! ## Scanning -/

variable [DecidableEq α]

theorem atBreak_dropWhile (s : List α) : AtBreak sep (s.dropWhile (· ≠ sep)) := by
  induction s with
  | nil => trivial
  | cons x s ih =>
    rw [List.dropWhile_cons]
    split
    · exact ih
    · rename_i hx
      exact not_not.1 fun hne => hx (decide_eq_true hne)

/-- Skipping separators changes nothing. -/
theorem Spells.skip (h : Spells sep cs (s.dropWhile (· = sep))) : Spells sep cs s := by
  induction s with
  | nil => exact h
  | cons x s ih =>
    rw [List.dropWhile_cons] at h
    split at h
    · rename_i hx
      obtain rfl : x = sep := of_decide_eq_true hx
      exact .sep (ih h)
    · exact h

/-- Taking a field up to the next separator. -/
theorem Spells.take (hs : s.takeWhile (· ≠ sep) ≠ [])
    (h : Spells sep cs (s.dropWhile (· ≠ sep))) :
    Spells sep (s.takeWhile (· ≠ sep) :: cs) s := by
  have hfree : sep ∉ s.takeWhile (· ≠ sep) := by
    intro hm
    have hsep := List.mem_takeWhile_imp (p := fun x => decide (x ≠ sep)) hm
    exact of_decide_eq_true hsep rfl
  have hspell := Spells.field ⟨hs, hfree⟩ (atBreak_dropWhile s) h
  rwa [List.takeWhile_append_dropWhile] at hspell

/-- Dropping separators at the end changes nothing. -/
theorem Spells.of_rdropWhile (h : Spells sep cs (s.rdropWhile (· = sep))) : Spells sep cs s := by
  have hseps : ∀ x ∈ s.rtakeWhile (· = sep), x = sep := fun x hx =>
    of_decide_eq_true (List.mem_takeWhile_imp (p := fun x => decide (x = sep))
      (List.mem_reverse.1 hx))
  have happ := h.append_seps hseps
  rwa [List.rdropWhile_append_rtakeWhile] at happ

/-- Skipping separators and then a field uses up at least one symbol. -/
theorem length_scan_lt (x : α) (s : List α) :
    (((x :: s).dropWhile (· = sep)).dropWhile (· ≠ sep)).length < (x :: s).length := by
  have hskip (p : α → Bool) (t : List α) : (t.dropWhile p).length ≤ t.length :=
    (List.dropWhile_sublist p).length_le
  rw [List.length_cons, Nat.lt_succ_iff]
  by_cases hx : x = sep
  · rw [List.dropWhile_cons_of_pos (by simpa using hx)]
    exact (hskip _ _).trans (hskip _ s)
  · rw [List.dropWhile_cons_of_neg (by simpa using hx),
      List.dropWhile_cons_of_pos (by simpa using hx)]
    exact hskip _ s

end SsdCache.Text
