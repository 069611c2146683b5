import SsdCache.Text.Fields

/-!
# Lines of keys and values

What a text file of lines `key=value` is read with: trimming at both ends (`trim`),
cutting at every mark of a kind (`List.splitOnP`), and cutting a line at its first mark
(`splitFirst`).

* `trim_of_trimmed`, `trimmed_trim`: what is trimmed is left as it is.
* `splitOn_lines`: a text made of lines is cut into them.
* `splitOnP_joined`: fields joined by a mark are cut into them, by any marks they are free of.
* `splitFirst_append_cons`: a line is cut at the mark after its key.
* `mem_splitOn_prefix`, `splitFirst_prefix`: how a text that ends too early is cut.
-/

namespace SsdCache.Text

variable {α : Type}

/-! ## Trimming -/

section Trim

variable {p : α → Bool} {s t : List α}

/-- The text without the symbols of the kind `p` at both ends. -/
def trim (p : α → Bool) (s : List α) : List α := (s.dropWhile p).rdropWhile p

/-- No symbol of the kind `p` at either end. -/
structure Trimmed (p : α → Bool) (s : List α) : Prop where
  head : ∀ x ∈ s.head?, p x = false
  last : ∀ x ∈ s.getLast?, p x = false

theorem trimmed_nil : Trimmed p [] := ⟨fun _ h => (nomatch h), fun _ h => (nomatch h)⟩

theorem trimmed_singleton {x : α} (h : p x = false) : Trimmed p [x] := by
  constructor <;> intro y hy
  · obtain rfl : x = y := by simpa using hy
    exact h
  · obtain rfl : x = y := by simpa using hy
    exact h

/-- The ends of a text decide. -/
theorem Trimmed.append_cons {x : α} (hs : Trimmed p s) (ht : Trimmed p t) (hs' : s ≠ [])
    (ht' : t ≠ []) : Trimmed p (s ++ x :: t) := by
  constructor <;> intro y hy
  · rw [List.head?_append_of_ne_nil s hs'] at hy
    exact hs.head y hy
  · rw [List.getLast?_append_of_ne_nil s (List.cons_ne_nil x t)] at hy
    obtain ⟨z, t, rfl⟩ := List.exists_cons_of_ne_nil ht'
    rw [List.getLast?_cons_cons] at hy
    exact ht.last y hy

theorem trim_of_trimmed (h : Trimmed p s) : trim p s = s := by
  have hdrop : s.dropWhile p = s := by
    cases s with
    | nil => rfl
    | cons x s =>
      have hx := h.head x rfl
      rw [List.dropWhile_cons_of_neg (by simp [hx])]
  have hlast : s.rdropWhile p = s := by
    rw [List.rdropWhile_eq_self_iff]
    intro hs
    have hp := h.last (s.getLast hs) (List.getLast?_eq_getLast_of_ne_nil hs)
    simp [hp]
  unfold trim
  rw [hdrop, hlast]

/-- Only what stands around a trimmed text goes. -/
theorem trim_append {a b : List α} (ha : ∀ x ∈ a, p x = true) (hb : ∀ x ∈ b, p x = true)
    (h : Trimmed p s) : trim p (a ++ (s ++ b)) = s := by
  rcases eq_or_ne s [] with rfl | hs
  · have hall : (a ++ ([] ++ b)).dropWhile p = [] := by
      rw [List.dropWhile_append_of_pos ha]
      exact List.dropWhile_eq_nil_iff.2 hb
    rw [trim, hall, List.rdropWhile_nil]
  · have hkept (t : List α) : (s ++ t).dropWhile p = s ++ t := by
      obtain ⟨x, s, rfl⟩ := List.exists_cons_of_ne_nil hs
      rw [List.cons_append, List.dropWhile_cons_of_neg (by simp [h.head x rfl])]
    have hlast : (s ++ b).rdropWhile p = s.rdropWhile p := by
      rw [List.rdropWhile, List.reverse_append,
        List.dropWhile_append_of_pos fun x hx => hb x (List.mem_reverse.1 hx), List.rdropWhile]
    have htrim := trim_of_trimmed h
    rw [trim] at htrim ⊢
    rw [List.dropWhile_append_of_pos ha, hkept, hlast]
    have hs' := hkept []
    rw [List.append_nil] at hs'
    rwa [hs'] at htrim

theorem trimmed_trim (p : α → Bool) (s : List α) : Trimmed p (trim p s) := by
  constructor <;> intro x hx
  · -- the first symbol of a prefix is the first of what it begins
    have hne : trim p s ≠ [] := by
      intro h
      rw [h] at hx
      cases hx
    obtain ⟨t, ht⟩ : trim p s <+: s.dropWhile p := List.rdropWhile_prefix p _
    have hhead : x ∈ (s.dropWhile p).head? := by
      rw [← ht, List.head?_append_of_ne_nil _ hne]
      exact hx
    have hnot := List.head?_dropWhile_not p s
    rw [Option.mem_def.1 hhead] at hnot
    simpa using hnot
  · have hne : trim p s ≠ [] := by
      intro h
      rw [h] at hx
      cases hx
    have hlast := List.rdropWhile_last_not p (s.dropWhile p) hne
    have heq : (trim p s).getLast hne = x := by
      rw [List.getLast?_eq_getLast_of_ne_nil hne] at hx
      exact Option.some.inj hx
    rw [← heq]
    exact Bool.eq_false_iff.2 hlast

/-- A text is what is left of it between two pieces of the kind `p`. -/
theorem exists_trim (p : α → Bool) (s : List α) :
    ∃ a b, (∀ x ∈ a, p x = true) ∧ (∀ x ∈ b, p x = true) ∧ s = a ++ (trim p s ++ b) := by
  refine ⟨s.takeWhile p, (s.dropWhile p).rtakeWhile p, fun x hx => List.mem_takeWhile_imp hx,
    fun x hx => List.mem_rtakeWhile_imp hx, ?_⟩
  unfold trim
  rw [List.rdropWhile_append_rtakeWhile, List.takeWhile_append_dropWhile]

theorem trim_subset (p : α → Bool) (s : List α) : trim p s ⊆ s := by
  obtain ⟨a, b, -, -, hs⟩ := exists_trim p s
  intro x hx
  rw [hs]
  exact List.mem_append_right a (List.mem_append_left b hx)

end Trim

/-! ## Cutting at every mark -/

section Split

variable {p : α → Bool} {P : List α → Prop} {s : List α}

/-- What holds of a text with a mark holds of the text before it and of the text after it. -/
def CutClosed (p : α → Bool) (P : List α → Prop) : Prop :=
  ∀ a x b, p x = true → P (a ++ x :: b) → P a ∧ P b

theorem cutClosed_not_mem (x : α) : CutClosed p fun s => x ∉ s := fun a y _ _ h =>
  ⟨fun ha => h (List.mem_append_left _ ha),
    fun hb => h (List.mem_append_right a (List.mem_cons_of_mem y hb))⟩

theorem CutClosed.and {Q : List α → Prop} (hP : CutClosed p P) (hQ : CutClosed p Q) :
    CutClosed p fun s => P s ∧ Q s := fun a x b hx h =>
  ⟨⟨(hP a x b hx h.1).1, (hQ a x b hx h.2).1⟩, (hP a x b hx h.1).2, (hQ a x b hx h.2).2⟩

theorem CutClosed.trim (hP : CutClosed p P) (h : P s) : P (trim p s) := by
  obtain ⟨a, b, ha, hb, hs⟩ := exists_trim p s
  rw [hs] at h
  clear hs
  have hrest : P (Text.trim p s ++ b) := by
    induction a with
    | nil => exact h
    | cons x a ih =>
      obtain ⟨hx, ha⟩ := List.forall_mem_cons.1 ha
      exact ih (hP [] x _ hx h).2 ha
  clear h
  induction b using List.reverseRecOn with
  | nil => simpa using hrest
  | append_singleton b x ih =>
    have hx := hb x (List.mem_append_right b List.mem_cons_self)
    rw [← List.append_assoc] at hrest
    exact ih (fun y hy => hb y (List.mem_append_left _ hy)) (hP _ x [] hx hrest).1

/-- A text has no marks, or it has a first one. -/
theorem firstMark_induction {motive : List α → Prop}
    (free : ∀ s, (∀ x ∈ s, p x = false) → motive s)
    (first : ∀ a x b, (∀ y ∈ a, p y = false) → p x = true → motive b → motive (a ++ x :: b))
    (s : List α) : motive s := by
  -- `a` is what has been passed before the first mark
  have hpassed : ∀ (s a : List α), (∀ x ∈ a, p x = false) → motive (a ++ s) := by
    intro s
    induction s with
    | nil =>
      intro a ha
      rw [List.append_nil]
      exact free a ha
    | cons x s ih =>
      intro a ha
      by_cases hx : p x = true
      · exact first a x s ha hx (ih [] fun _ h => absurd h List.not_mem_nil)
      · have hax := ih (a ++ [x]) fun y hy => by
          rcases List.mem_append.1 hy with hy | hy
          · exact ha y hy
          · rw [List.mem_singleton.1 hy]
            exact Bool.eq_false_iff.2 hx
        rwa [List.append_assoc] at hax
  exact hpassed s [] fun _ h => absurd h List.not_mem_nil

theorem CutClosed.splitOnP (hP : CutClosed p P) :
    ∀ s, P s → ∀ w ∈ s.splitOnP p, P w ∧ ∀ x ∈ w, p x = false := by
  intro s
  induction s using firstMark_induction (p := p) with
  | free s hs =>
    intro h w hw
    rw [List.splitOnP_eq_singleton hs, List.mem_singleton] at hw
    rw [hw]
    exact ⟨h, hs⟩
  | first a x b ha hx ih =>
    intro h
    obtain ⟨hPa, hPb⟩ := hP a x b hx h
    rw [List.splitOnP_append_cons_of_forall_mem ha x hx]
    exact List.forall_mem_cons.2 ⟨⟨hPa, ha⟩, ih hPb⟩

/-- Fields joined by a mark are cut into them. -/
theorem splitOnP_joined {x : α} (hx : p x = true) {cs : List (List α)} (hcs : cs ≠ [])
    (h : ∀ c ∈ cs, ∀ y ∈ c, p y = false) : (joined x cs).splitOnP p = cs := by
  induction cs with
  | nil => exact absurd rfl hcs
  | cons c cs ih =>
    obtain ⟨hc, hrest⟩ := List.forall_mem_cons.1 h
    cases cs with
    | nil => rw [show joined x [c] = c by simp [joined], List.splitOnP_eq_singleton hc]
    | cons d cs =>
      rw [joined_cons_cons, List.splitOnP_append_cons_of_forall_mem hc x hx,
        ih (List.cons_ne_nil d cs) hrest]

/-- Fields that are trimmed and not empty make a trimmed text. -/
theorem trimmed_joined {q : α → Bool} (x : α) {cs : List (List α)}
    (h : ∀ c ∈ cs, c ≠ [] ∧ Trimmed q c) : Trimmed q (joined x cs) := by
  induction cs with
  | nil => exact trimmed_nil
  | cons c cs ih =>
    obtain ⟨⟨hne, hc⟩, hrest⟩ := List.forall_mem_cons.1 h
    cases cs with
    | nil => simpa [joined] using hc
    | cons d cs =>
      rw [joined_cons_cons]
      refine hc.append_cons (ih hrest) hne fun hnil => ?_
      have hd := (hrest d List.mem_cons_self).1
      cases cs with
      | nil => exact hd (by simpa [joined] using hnil)
      | cons e cs => simp [joined_cons_cons] at hnil

end Split

/-! ## Lines -/

section Lines

variable [DecidableEq α] {mark : α}

/-- Lines, each with its end mark, and a last one without are cut into them. -/
theorem splitOn_lines_append {ls : List (List α)} (h : ∀ l ∈ ls, mark ∉ l) {last : List α}
    (hlast : mark ∉ last) : (ls.flatMap (· ++ [mark]) ++ last).splitOn mark = ls ++ [last] := by
  induction ls with
  | nil => exact List.splitOn_eq_singleton hlast
  | cons l ls ih =>
    obtain ⟨hl, hls⟩ := List.forall_mem_cons.1 h
    rw [List.flatMap_cons, List.append_assoc, List.append_assoc, List.singleton_append,
      List.splitOn_append_cons_self_of_not_mem hl, ih hls]
    rfl

/-- Nothing follows the last end mark. -/
theorem splitOn_lines {ls : List (List α)} (h : ∀ l ∈ ls, mark ∉ l) :
    (ls.flatMap (· ++ [mark])).splitOn mark = ls ++ [[]] := by
  have hlines := splitOn_lines_append h (List.not_mem_nil (a := mark))
  rwa [List.append_nil] at hlines

variable (mark) in
/-- The first line of a prefix is a prefix of the first, and each other line of another. -/
theorem splitOn_prefix : ∀ {s t : List α}, s <+: t →
    ∃ l ls l' ls', s.splitOn mark = l :: ls ∧ t.splitOn mark = l' :: ls' ∧ l <+: l' ∧
      ∀ k ∈ ls, ∃ k' ∈ ls', k <+: k'
  | [], t, _ => by
    obtain ⟨l', ls', ht⟩ := List.exists_cons_of_ne_nil (List.splitOn_ne_nil mark t)
    exact ⟨[], [], l', ls', by simp, ht, List.nil_prefix, fun _ h => absurd h List.not_mem_nil⟩
  | x :: s, t, h => by
    obtain ⟨t, rfl⟩ := h
    obtain ⟨l, ls, l', ls', hs, ht, hl, hls⟩ := splitOn_prefix (List.prefix_append s t)
    rw [List.cons_append, List.splitOn_cons_eq_if_modifyHead, List.splitOn_cons_eq_if_modifyHead,
      hs, ht]
    split_ifs
    · refine ⟨[], l :: ls, [], l' :: ls', rfl, rfl, List.nil_prefix, ?_⟩
      refine List.forall_mem_cons.2 ⟨⟨l', List.mem_cons_self, hl⟩, fun k hk => ?_⟩
      obtain ⟨k', hk', hpre⟩ := hls k hk
      exact ⟨k', List.mem_cons_of_mem l' hk', hpre⟩
    · exact ⟨x :: l, ls, x :: l', ls', rfl, rfl, (List.prefix_cons_inj x).2 hl, hls⟩

/-- Each line of a prefix is a prefix of a line. -/
theorem mem_splitOn_prefix {s t k : List α} (h : s <+: t) (hk : k ∈ s.splitOn mark) :
    ∃ k' ∈ t.splitOn mark, k <+: k' := by
  obtain ⟨l, ls, l', ls', hs, ht, hl, hls⟩ := splitOn_prefix mark h
  rw [ht]
  rw [hs] at hk
  rcases List.mem_cons.1 hk with rfl | hk
  · exact ⟨l', List.mem_cons_self, hl⟩
  · obtain ⟨k', hk', hpre⟩ := hls k hk
    exact ⟨k', List.mem_cons_of_mem l' hk', hpre⟩

/-- The text before the first mark and the text after it. -/
def splitFirst (mark : α) (s : List α) : Option (List α × List α) :=
  if mark ∈ s then some (s.takeWhile (· ≠ mark), (s.dropWhile (· ≠ mark)).tail) else none

theorem splitFirst_append_cons {k : List α} (h : mark ∉ k) (v : List α) :
    splitFirst mark (k ++ mark :: v) = some (k, v) := by
  have hmem : mark ∈ k ++ mark :: v := List.mem_append_right k List.mem_cons_self
  have hk : ∀ x ∈ k, decide (x ≠ mark) = true := by
    intro x hx
    exact decide_eq_true fun heq => h (heq ▸ hx)
  unfold splitFirst
  rw [if_pos hmem, List.takeWhile_append_of_pos hk, List.dropWhile_append_of_pos hk]
  simp

theorem splitFirst_eq_some {s k v : List α} (h : splitFirst mark s = some (k, v)) :
    s = k ++ mark :: v := by
  unfold splitFirst at h
  split_ifs at h with hmem
  obtain ⟨rfl, rfl⟩ := Prod.mk.inj (Option.some.inj h)
  have hbreak : AtBreak mark (s.dropWhile (· ≠ mark)) := atBreak_dropWhile s
  have hsplit := List.takeWhile_append_dropWhile (p := fun x => decide (x ≠ mark)) (l := s)
  cases hd : s.dropWhile (· ≠ mark) with
  | nil =>
    -- then `s` would be free of marks
    rw [hd, List.append_nil] at hsplit
    rw [← hsplit] at hmem
    have hne := List.mem_takeWhile_imp hmem
    simp at hne
  | cons x t =>
    rw [hd] at hbreak hsplit
    obtain rfl : x = mark := hbreak
    exact hsplit.symm

/-- A prefix of `k`, a mark and a value has the same text before the mark. -/
theorem splitFirst_prefix {k s k' v v' : List α} (hk : mark ∉ k) (h : s <+: k ++ mark :: v)
    (hs : splitFirst mark s = some (k', v')) : k' = k ∧ v' <+: v := by
  obtain ⟨rest, hrest⟩ := h
  have hk' : mark ∉ k' := by
    unfold splitFirst at hs
    split_ifs at hs
    obtain ⟨rfl, -⟩ := Prod.mk.inj (Option.some.inj hs)
    intro hm
    simpa using List.mem_takeWhile_imp hm
  have heq : k' ++ mark :: (v' ++ rest) = k ++ mark :: v := by
    rw [← hrest, splitFirst_eq_some hs, List.append_assoc, List.cons_append]
  have hsplit := congrArg (splitFirst mark) heq
  rw [splitFirst_append_cons hk', splitFirst_append_cons hk, Option.some.injEq] at hsplit
  obtain ⟨rfl, rfl⟩ := Prod.mk.inj hsplit
  exact ⟨rfl, List.prefix_append v' rest⟩

end Lines

end SsdCache.Text
