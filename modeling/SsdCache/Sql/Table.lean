import Mathlib.Data.List.AList
import Mathlib.Data.List.Sort
import Mathlib.Order.Basic
import Mathlib.Tactic.Common

/-!
# Keyed tables

A table with a primary key is an association list without duplicate keys
(`AList`). This file adds the statements a program runs on it: `update` (`UPDATE …
WHERE key = k`), `upsert` (`INSERT … ON CONFLICT DO UPDATE`), and the answers of
`SELECT … WHERE … ORDER BY … LIMIT`. SQL leaves the order of rows with equal sort
keys open, so the answers are a relation (`IsSelect`); `select` is one of them.

* `lookup_update`, `lookup_upsert`: what the statements do to a key.
* `erase_update`: an update and a deletion can change places.
* `IsSelect.mem`, `IsSelect.nodup`: an answer holds only matching rows, each key once.
* `IsSelect.mem_of_count`: a row is in every answer when no more rows than the
  limit sort at or before it.
* `IsSelect.pairwise`: an answer is sorted.
* `isSelect_congr`: conditions and sort keys that agree on the rows give the same answers.
-/

namespace SsdCache.Sql

/-- A table with primary key `κ`. -/
abbrev Table (κ ρ : Type) : Type := AList fun _ : κ => ρ

variable {κ ρ α : Type} [DecidableEq κ]

/-- `UPDATE … WHERE key = k`. -/
def update (k : κ) (f : ρ → ρ) (t : Table κ ρ) : Table κ ρ :=
  match t.lookup k with
  | some r => t.insert k (f r)
  | none => t

/-- `INSERT … ON CONFLICT(key) DO UPDATE`: `f none` is the row inserted, `f (some r)`
the row updated. -/
def upsert (k : κ) (f : Option ρ → ρ) (t : Table κ ρ) : Table κ ρ := t.insert k (f (t.lookup k))

theorem lookup_insert_eq (k j : κ) (r : ρ) (t : Table κ ρ) :
    (t.insert k r).lookup j = if j = k then some r else t.lookup j := by
  split
  · rename_i h; subst h; exact t.lookup_insert
  · rename_i h; exact AList.lookup_insert_ne h

theorem lookup_erase_eq (k j : κ) (t : Table κ ρ) :
    (t.erase k).lookup j = if j = k then none else t.lookup j := by
  split
  · rename_i h; subst h; exact t.lookup_erase j
  · rename_i h; exact AList.lookup_erase_ne h

theorem lookup_update (k j : κ) (f : ρ → ρ) (t : Table κ ρ) :
    (update k f t).lookup j = if j = k then (t.lookup j).map f else t.lookup j := by
  unfold update
  split
  · rename_i r hr
    rw [lookup_insert_eq]
    split
    · rename_i h; subst h; rw [hr]; rfl
    · rfl
  · rename_i hr
    split
    · rename_i h; subst h; rw [hr]; rfl
    · rfl

theorem lookup_upsert (k j : κ) (f : Option ρ → ρ) (t : Table κ ρ) :
    (upsert k f t).lookup j = if j = k then some (f (t.lookup j)) else t.lookup j := by
  unfold upsert
  rw [lookup_insert_eq]
  split
  · rename_i h; subst h; rfl
  · rfl

theorem mem_iff_lookup {k : κ} {t : Table κ ρ} : k ∈ t ↔ ∃ r, t.lookup k = some r := by
  rw [← AList.lookup_isSome, Option.isSome_iff_exists]

theorem mem_update {k j : κ} {f : ρ → ρ} {t : Table κ ρ} : j ∈ update k f t ↔ j ∈ t := by
  rw [mem_iff_lookup, mem_iff_lookup, lookup_update]
  split
  · simp
  · rfl

theorem mem_upsert {k j : κ} {f : Option ρ → ρ} {t : Table κ ρ} :
    j ∈ upsert k f t ↔ j = k ∨ j ∈ t := AList.mem_insert t

/-- **An update and a deletion** can change places. -/
theorem erase_update (k j : κ) (f : ρ → ρ) (t : Table κ ρ) :
    (update j f t).erase k = update j f (t.erase k) := by
  unfold update
  by_cases hjk : j = k
  · subst hjk
    rw [AList.lookup_erase]
    cases t.lookup j with
    | none => rfl
    | some r =>
      refine AList.ext ?_
      show List.kerase j (⟨j, f r⟩ :: t.entries.kerase j) = t.entries.kerase j
      simp
  · rw [AList.lookup_erase_ne hjk]
    cases t.lookup j with
    | none => rfl
    | some r =>
      refine AList.ext ?_
      show List.kerase k (⟨j, f r⟩ :: t.entries.kerase j) = ⟨j, f r⟩ :: (t.entries.kerase k).kerase j
      rw [List.kerase_cons_ne (Ne.symm hjk), List.kerase_comm]

/-- The rows of a table with their keys. -/
def rows (t : Table κ ρ) : List (κ × ρ) := t.entries.map fun s => (s.1, s.2)

theorem mem_rows {t : Table κ ρ} {k : κ} {r : ρ} : (k, r) ∈ rows t ↔ t.lookup k = some r := by
  rw [← Option.mem_def, AList.mem_lookup_iff]
  simp only [rows, List.mem_map, Prod.mk.injEq]
  constructor
  · rintro ⟨⟨k', r'⟩, hm, rfl, rfl⟩; exact hm
  · exact fun h => ⟨⟨k, r⟩, h, rfl, rfl⟩

omit [DecidableEq κ] in
theorem nodup_rows (t : Table κ ρ) : ((rows t).map Prod.fst).Nodup := by
  have h := t.nodupKeys
  rw [List.nodupKeys_iff_pairwise] at h
  simp only [rows, List.map_map, List.Nodup, List.pairwise_map]
  exact h

/-! ## Queries -/

/-- `LIMIT n`; a negative limit is none. -/
def limitRows (n : ℤ) (l : List α) : List α := if n < 0 then l else l.take n.toNat

theorem limitRows_sublist (n : ℤ) (l : List α) : (limitRows n l).Sublist l := by
  unfold limitRows
  split
  · exact List.Sublist.refl l
  · exact List.take_sublist _ _

variable {β : Type} [LinearOrder β]

/-- `l` is an answer of `SELECT … WHERE p ORDER BY key LIMIT n`. -/
def IsSelect (p : κ × ρ → Bool) (key : κ × ρ → β) (n : ℤ) (t : Table κ ρ) (l : List (κ × ρ)) :
    Prop :=
  ∃ full, full.Perm ((rows t).filter p) ∧ full.Pairwise (fun a b => key a ≤ key b) ∧
    l = limitRows n full

/-- The answer that keeps rows with equal keys in table order. -/
def select (p : κ × ρ → Bool) (key : κ × ρ → β) (n : ℤ) (t : Table κ ρ) : List (κ × ρ) :=
  limitRows n (((rows t).filter p).insertionSort fun a b => key a ≤ key b)

omit [DecidableEq κ] in
theorem select_isSelect (p : κ × ρ → Bool) (key : κ × ρ → β) (n : ℤ) (t : Table κ ρ) :
    IsSelect p key n t (select p key n t) := by
  have : Std.Total fun a b : κ × ρ => key a ≤ key b := ⟨fun a b => le_total _ _⟩
  have : IsTrans (κ × ρ) fun a b => key a ≤ key b := ⟨fun _ _ _ => le_trans⟩
  exact ⟨_, List.perm_insertionSort _ _, List.pairwise_insertionSort _ _, rfl⟩

variable {p : κ × ρ → Bool} {key : κ × ρ → β} {n : ℤ} {t : Table κ ρ} {l : List (κ × ρ)}

/-- An answer holds only matching rows of the table. -/
theorem IsSelect.mem (h : IsSelect p key n t l) {k : κ} {r : ρ} (hm : (k, r) ∈ l) :
    t.lookup k = some r ∧ p (k, r) = true := by
  obtain ⟨full, hp, -, rfl⟩ := h
  have hfull : (k, r) ∈ full := (limitRows_sublist n full).subset hm
  have hfilter : (k, r) ∈ (rows t).filter p := hp.mem_iff.1 hfull
  rw [List.mem_filter, mem_rows] at hfilter
  exact hfilter

omit [DecidableEq κ] in
/-- An answer holds each key at most once. -/
theorem IsSelect.nodup (h : IsSelect p key n t l) : (l.map Prod.fst).Nodup := by
  obtain ⟨full, hp, -, rfl⟩ := h
  have hfull : (full.map Prod.fst).Nodup :=
    (hp.map Prod.fst).nodup_iff.2 ((List.filter_sublist.map Prod.fst).nodup (nodup_rows t))
  exact ((limitRows_sublist n full).map Prod.fst).nodup hfull

omit [DecidableEq κ] in
/-- An answer is sorted. -/
theorem IsSelect.pairwise (h : IsSelect p key n t l) : l.Pairwise fun a b => key a ≤ key b := by
  obtain ⟨full, -, hsorted, rfl⟩ := h
  exact hsorted.sublist (limitRows_sublist n full)

omit [DecidableEq κ] in
/-- All answers are equally long. -/
theorem IsSelect.length_eq (h : IsSelect p key n t l) : l.length = (select p key n t).length := by
  obtain ⟨full, hperm, -, rfl⟩ := h
  have hlength : full.length =
      (((rows t).filter p).insertionSort fun a b => key a ≤ key b).length :=
    (hperm.trans (List.perm_insertionSort _ _).symm).length_eq
  unfold select limitRows
  split
  · exact hlength
  · rw [List.length_take, List.length_take, hlength]

omit [DecidableEq κ] in
theorem IsSelect.length_eq_min (h : IsSelect p key n t l) (hn : 0 ≤ n) :
    l.length = min n.toNat ((rows t).countP p) := by
  obtain ⟨full, hperm, -, rfl⟩ := h
  unfold limitRows
  rw [if_neg (by omega), List.length_take, hperm.length_eq, List.countP_eq_length_filter]

omit [DecidableEq κ] in
theorem IsSelect.congr {γ : Type} [LinearOrder γ] {p' : κ × ρ → Bool} {key' : κ × ρ → γ}
    (hp : ∀ x ∈ rows t, p x = p' x)
    (hkey : ∀ x ∈ rows t, ∀ y ∈ rows t, key x ≤ key y → key' x ≤ key' y)
    (h : IsSelect p key n t l) : IsSelect p' key' n t l := by
  obtain ⟨full, hperm, hsorted, rfl⟩ := h
  have hfilter : (rows t).filter p = (rows t).filter p' := List.filter_congr hp
  have hrow : ∀ x ∈ full, x ∈ rows t := fun x hx =>
    List.mem_of_mem_filter (hperm.mem_iff.1 hx)
  refine ⟨full, hfilter ▸ hperm, ?_, rfl⟩
  exact hsorted.imp_of_mem fun hx hy hle => hkey _ (hrow _ hx) _ (hrow _ hy) hle

omit [DecidableEq κ] in
/-- **Conditions and sort keys that agree on the rows** have the same answers. -/
theorem isSelect_congr {γ : Type} [LinearOrder γ] {p' : κ × ρ → Bool} {key' : κ × ρ → γ}
    (hp : ∀ x ∈ rows t, p x = p' x)
    (hkey : ∀ x ∈ rows t, ∀ y ∈ rows t, key x ≤ key y ↔ key' x ≤ key' y) :
    IsSelect p key n t l ↔ IsSelect p' key' n t l := by
  constructor
  · intro h
    exact h.congr hp fun x hx y hy => (hkey x hx y hy).1
  · intro h
    exact h.congr (fun x hx => (hp x hx).symm) fun x hx y hy => (hkey x hx y hy).2

/-- Without a limit an answer holds every matching row. -/
theorem IsSelect.mem_of_neg (h : IsSelect p key n t l) (hn : n < 0) {k : κ} {r : ρ}
    (hk : t.lookup k = some r) (hp : p (k, r) = true) : (k, r) ∈ l := by
  obtain ⟨full, hperm, -, rfl⟩ := h
  rw [limitRows, if_pos hn, hperm.mem_iff]
  exact List.mem_filter.2 ⟨mem_rows.2 hk, hp⟩

/-- A sorted list has `x` among its first `n` when at most `n` entries sort at or
before it. -/
theorem mem_take_of_count {f : α → β} {full : List α} (hs : full.Pairwise fun a b => f a ≤ f b)
    {x : α} (hx : x ∈ full) {n : ℕ} (hn : full.countP (fun y => f y ≤ f x) ≤ n) :
    x ∈ full.take n := by
  obtain ⟨a, b, rfl⟩ := List.append_of_mem hx
  -- all of `a` sorts at or before `x`, so `a` alone does not fill the first `n`
  have hall : ∀ y ∈ a, f y ≤ f x := fun y hy =>
    (List.pairwise_append.1 hs).2.2 y hy x List.mem_cons_self
  have hcount : a.countP (fun y => f y ≤ f x) = a.length := by
    rw [List.countP_eq_length]; simpa using hall
  rw [List.countP_append, hcount, List.countP_cons_of_pos (by simp)] at hn
  rw [List.take_append]
  obtain ⟨m, hm⟩ : ∃ m, n - a.length = m + 1 := ⟨n - a.length - 1, by omega⟩
  rw [hm, List.take_succ_cons]
  exact List.mem_append_right _ List.mem_cons_self

/-- **A row is in every answer** when at most `n` rows sort at or before it. -/
theorem IsSelect.mem_of_count (h : IsSelect p key n t l) {k : κ} {r : ρ} (hk : t.lookup k = some r)
    (hp : p (k, r) = true) (hn : ((rows t).filter p).countP (fun y => key y ≤ key (k, r)) ≤ n) :
    (k, r) ∈ l := by
  obtain ⟨full, hperm, hs, rfl⟩ := h
  have hmem : (k, r) ∈ full := hperm.mem_iff.2 (List.mem_filter.2 ⟨mem_rows.2 hk, hp⟩)
  unfold limitRows
  split
  · exact hmem
  · exact mem_take_of_count hs hmem (by rw [hperm.countP_eq]; omega)

end SsdCache.Sql
