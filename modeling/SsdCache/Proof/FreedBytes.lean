import SsdCache.Proof.Evictions
import Mathlib.Algebra.Order.BigOperators.Group.List

/-!
# What the evictions free

The eviction loops count in 64 bits, one the free space and the other the bytes freed.
While the sums fit, both are the same loop over natural numbers (`SumScan`).

* `evictions_agree`: the two loops remove the same files.
* `freedReported_iff`: `--free` reports what it freed exactly if it comes to no record whose
  file is already gone.
-/

namespace SsdCache

open Atomic Sql Loop

variable {V : Type} {sv : Service V} {w w' : World V} {tr : List Answered} {p q : WString}
variable {pathResolver : PathResolver} {targetBytes : UInt64} {exclude : WString}
variable {files : List CachedFileRef}

/-! ## The passes of `--free` -/

/-- What was freed after a removal. -/
def EvictionResult.add (result : EvictionResult) (x : Removal) : EvictionResult :=
  if x.result.Clean then
    ⟨result.bytesFreed + x.victim.cachedSizeBytes, result.filesRemoved + 1⟩
  else result

/-- The calls of a removal of `--free`. -/
def Removal.calls (pathResolver : PathResolver) (x : Removal) : List Answered :=
  x.call pathResolver :: if x.result.Clean then [x.marked] else []

/-- The cached files that `--free` may remove. -/
def freeCandidates (files : List CachedFileRef) (exclude : WString) : List CachedFileRef :=
  files.filter fun v => ¬ (exclude ≠ [] ∧ v.relativePath = exclude)

/-- **The passes of `evict_least_recently_used`.** -/
theorem evictFiles_traces {victims : List CachedFileRef} {result r : EvictionResult}
    (h : (evictFiles pathResolver targetBytes exclude victims result).Traces (S := calls) (exec sv) w
      tr (.ok r) w') :
    ∃ xs : List Removal,
      Scanned (targetBytes ≤ ·.bytesFreed) EvictionResult.add (·.victim) result
        (victims.filter fun v => ¬ (exclude ≠ [] ∧ v.relativePath = exclude)) xs ∧
      tr = xs.flatMap (Removal.calls pathResolver) ∧ r = xs.foldl EvictionResult.add result ∧
      w'.index = xs.foldl Removal.index w.index := by
  induction victims generalizing w tr result with
  | nil =>
    obtain ⟨rfl, hr, rfl⟩ := h
    cases hr
    exact ⟨[], .done, rfl, rfl, rfl⟩
  | cons victim victims ih =>
    unfold evictFiles at h
    by_cases henough : result.bytesFreed ≥ targetBytes
    · rw [if_pos henough] at h
      obtain ⟨rfl, hr, rfl⟩ := h
      cases hr
      exact ⟨[], .of_enough henough, rfl, rfl, rfl⟩
    rw [if_neg henough] at h
    by_cases hexclude : exclude ≠ [] ∧ victim.relativePath = exclude
    · rw [if_pos hexclude] at h
      rw [List.filter_cons_of_neg (by simpa using hexclude)]
      exact ih h
    rw [if_neg hexclude] at h
    rw [List.filter_cons, if_pos (decide_eq_true hexclude)]
    obtain ⟨answer, m, rest, rfl, ⟨v, -, rfl⟩, h⟩ := Prog.traces_perform_ok h
    let x : Removal := ⟨victim, answer⟩
    by_cases hclean : answer.Clean
    · rw [if_pos hclean] at h
      obtain ⟨_, m, rest, rfl, ⟨ix, hmarked, rfl⟩, h⟩ := Prog.traces_perform_ok h
      cases hmarked
      obtain ⟨xs, hscan, rfl, rfl, hindex⟩ := ih h
      have hadd : result.add x =
          ⟨result.bytesFreed + victim.cachedSizeBytes, result.filesRemoved + 1⟩ := if_pos hclean
      refine ⟨x :: xs, .step (x := x) henough (hadd ▸ hscan), ?_, ?_, ?_⟩
      · rw [List.flatMap_cons, Removal.calls, if_pos hclean]
        rfl
      · rw [List.foldl_cons, hadd]
      · rw [hindex, List.foldl_cons, Removal.index, if_pos hclean]
    · rw [if_neg hclean] at h
      obtain ⟨xs, hscan, rfl, rfl, hindex⟩ := ih h
      have hadd : result.add x = result := if_neg hclean
      refine ⟨x :: xs, .step (x := x) henough (hadd.symm ▸ hscan), ?_, ?_, ?_⟩
      · rw [List.flatMap_cons, Removal.calls, if_neg hclean]
        rfl
      · rw [List.foldl_cons, hadd]
      · rw [hindex, List.foldl_cons, Removal.index, if_neg hclean]

/-! ## Sums -/

/-- The bytes a removal frees. -/
def Removal.bytes (x : Removal) : ℕ := if x.result.Clean then x.victim.cachedSizeBytes.toNat else 0

def sizeOf (victims : List CachedFileRef) : ℕ := (victims.map (·.cachedSizeBytes.toNat)).sum

/-- An eviction loop that counts in the natural numbers. -/
abbrev SumScan (target : ℕ) : ℕ → List CachedFileRef → List Removal → Prop :=
  Scanned (target ≤ ·) (fun n x => n + x.bytes) (·.victim)

theorem bytes_le (x : Removal) : x.bytes ≤ x.victim.cachedSizeBytes.toNat := by
  unfold Removal.bytes
  split
  · exact le_rfl
  · exact Nat.zero_le _

theorem sizeOf_cons (v : CachedFileRef) (victims : List CachedFileRef) :
    sizeOf (v :: victims) = v.cachedSizeBytes.toNat + sizeOf victims := by
  unfold sizeOf
  rw [List.map_cons, List.sum_cons]

theorem sizeOf_sublist {victims victims' : List CachedFileRef} (h : victims.Sublist victims') :
    sizeOf victims ≤ sizeOf victims' := (h.map _).sum_le_sum fun _ _ => Nat.zero_le _

/-- The bytes freed are the sizes of the error-free victims. -/
theorem sum_bytes (xs : List Removal) :
    (xs.map Removal.bytes).sum =
      sizeOf ((xs.filter fun x => x.result.Clean).map (·.victim)) := by
  induction xs with
  | nil => rfl
  | cons x xs ih =>
    rw [List.map_cons, List.sum_cons, ih, Removal.bytes]
    by_cases hclean : x.result.Clean
    · rw [if_pos hclean, List.filter_cons_of_pos (by simpa using hclean), List.map_cons, sizeOf_cons]
    · rw [if_neg hclean, List.filter_cons_of_neg (by simpa using hclean), Nat.zero_add]

/-- **While the sums fit, `--free` counts in the natural numbers.** -/
theorem sumScan_of_free {victims : List CachedFileRef} {xs : List Removal} {result : EvictionResult}
    (h : Scanned (targetBytes ≤ ·.bytesFreed) EvictionResult.add (·.victim) result victims xs)
    (hsum : result.bytesFreed.toNat + sizeOf victims < 2 ^ 64) :
    SumScan targetBytes.toNat result.bytesFreed.toNat victims xs ∧
      (xs.foldl EvictionResult.add result).bytesFreed.toNat =
        result.bytesFreed.toNat + (xs.map Removal.bytes).sum ∧
      (xs.foldl EvictionResult.add result).filesRemoved =
        result.filesRemoved + (xs.filter fun x => x.result.Clean).length := by
  induction h with
  | done => exact ⟨.done, rfl, rfl⟩
  | stop hs => exact ⟨.stop (UInt64.le_iff_toNat_le.1 hs), rfl, rfl⟩
  | @step s x l xs hs _ ih =>
    rw [sizeOf_cons] at hsum
    have hbytes : (s.add x).bytesFreed.toNat = s.bytesFreed.toNat + x.bytes := by
      unfold EvictionResult.add Removal.bytes
      split
      · rw [UInt64.toNat_add, Nat.mod_eq_of_lt (by omega)]
      · rfl
    have hle := bytes_le x
    obtain ⟨hscan, hfreed, hcount⟩ := ih (by omega)
    rw [hbytes] at hscan hfreed
    refine ⟨.step (fun hle => hs (UInt64.le_iff_toNat_le.2 hle)) hscan, ?_, ?_⟩
    · rw [List.foldl_cons, hfreed, List.map_cons, List.sum_cons]
      omega
    · rw [List.foldl_cons, hcount]
      unfold EvictionResult.add
      by_cases hclean : x.result.Clean
      · rw [if_pos hclean, List.filter_cons_of_pos (by simpa using hclean), List.length_cons]
        exact Nat.succ_add_eq_add_succ _ _
      · rw [if_neg hclean, List.filter_cons_of_neg (by simpa using hclean)]

/-! ## Traces -/

/-- The arguments of a `remove_cached_file` call. -/
def removalCall : Answered → Option (WString × WString)
  | ⟨.removeCachedFile q cache, _⟩ => some (q, cache)
  | _ => none

/-- The path and the answer of a removal. -/
def removalAnswer : Answered → Option (WString × RemoveResult)
  | ⟨.removeCachedFile q _, .ok r⟩ => some (q, r)
  | _ => none

/-- The answer of the free-space provider. -/
def freeAnswer : Answered → Option (Option UInt64)
  | ⟨.freeBytes _, .ok answer⟩ => some answer
  | _ => none

/-- The engine's answers in a trace are those of `outcome`. -/
def HasOutcomes (outcome : WString → RemoveResult) (tr : List Answered) : Prop :=
  ∀ x ∈ tr, ∀ r ∈ removalAnswer x, r.2 = outcome r.1

/-- The free space after a call, when every file removed without error frees its size. -/
def freeAfter (size : WString → UInt64) (free : UInt64) (x : Answered) : UInt64 :=
  match removalAnswer x with
  | some (q, r) => if r.Clean then free + size q else free
  | none => free

/-- From `free` on the provider reports the previous value, and the size of a file that was
removed without error on top of it. -/
def ReportsFreed (size : WString → UInt64) : UInt64 → List Answered → Prop
  | _, [] => True
  | free, x :: tr =>
    (∀ answer ∈ freeAnswer x, answer = some free) ∧ ReportsFreed size (freeAfter size free x) tr

/-- The provider answers its first query with `free` and fails after that. -/
def FailsAfterFirst (free : UInt64) (tr : List Answered) : Prop :=
  ∃ n, tr.filterMap freeAnswer = some free :: List.replicate n none

/-- Each pass has one call of interest. -/
theorem filterMap_calls {ξ β : Type} {f : Answered → Option β} {calls : ξ → List Answered}
    {k : ξ → β} (h : ∀ x, (calls x).filterMap f = [k x]) (xs : List ξ) :
    (xs.flatMap calls).filterMap f = xs.map k := by
  rw [List.filterMap_flatMap, List.map_eq_flatMap]
  exact congrArg (xs.flatMap ·) (funext h)

theorem filterMap_removalCall_room (xs : List Attempt) :
    (xs.flatMap (Attempt.calls sv)).filterMap removalCall = xs.map fun x =>
      (x.victim.relativePath, sv.pathResolver.cacheAbsolute x.victim.relativePath) := by
  refine filterMap_calls (fun x => ?_) xs
  unfold Attempt.calls
  split <;> rfl

theorem filterMap_removalCall_free (xs : List Removal) :
    (xs.flatMap (Removal.calls pathResolver)).filterMap removalCall = xs.map fun x =>
      (x.victim.relativePath, pathResolver.cacheAbsolute x.victim.relativePath) := by
  refine filterMap_calls (fun x => ?_) xs
  unfold Removal.calls
  split <;> rfl

/-- The answers of the passes are those of the engine. -/
theorem HasOutcomes.room {outcome : WString → RemoveResult} {xs : List Attempt}
    (h : HasOutcomes outcome tr) (hsub : ∀ x ∈ xs.flatMap (Attempt.calls sv), x ∈ tr) :
    ∀ x ∈ xs, x.result = outcome x.victim.relativePath := by
  intro x hx
  have hcall : x.call sv.pathResolver ∈ xs.flatMap (Attempt.calls sv) :=
    List.mem_flatMap.2 ⟨x, hx, List.mem_cons_self⟩
  exact h _ (hsub _ hcall) (x.victim.relativePath, x.result) rfl

theorem HasOutcomes.free {outcome : WString → RemoveResult} {xs : List Removal}
    (h : HasOutcomes outcome (xs.flatMap (Removal.calls pathResolver))) :
    ∀ x ∈ xs, x.result = outcome x.victim.relativePath := by
  intro x hx
  have hcall : x.call pathResolver ∈ xs.flatMap (Removal.calls pathResolver) :=
    List.mem_flatMap.2 ⟨x, hx, List.mem_cons_self⟩
  exact h _ hcall (x.victim.relativePath, x.result) rfl

/-! ## Making room counts the same way -/

/-- The provider's answers leave the estimate as it is. -/
def Estimates (free : UInt64) (x : Attempt) : Prop :=
  x.free free = if x.result.Clean then free + x.victim.cachedSizeBytes else free

/-- Every pass from `free` on leaves the estimate. -/
def AllEstimate : UInt64 → List Attempt → Prop
  | _, [] => True
  | free, x :: xs => Estimates free x ∧ AllEstimate (x.free free) xs

theorem allEstimate_of_reports {size : WString → UInt64} {xs : List Attempt} {free : UInt64}
    (hsize : ∀ x ∈ xs, size x.victim.relativePath = x.victim.cachedSizeBytes)
    (h : ReportsFreed size free (xs.flatMap (Attempt.calls sv))) : AllEstimate free xs := by
  induction xs generalizing free with
  | nil => trivial
  | cons x xs ih =>
    obtain ⟨hx, hxs⟩ := List.forall_mem_cons.1 hsize
    rw [List.flatMap_cons, Attempt.calls] at h
    by_cases hclean : x.result.Clean
    · rw [if_pos hclean] at h
      obtain ⟨-, -, hanswer, hrest⟩ := h
      have hafter : freeAfter size free (x.call sv.pathResolver) =
          free + x.victim.cachedSizeBytes := by
        rw [← hx]
        exact if_pos hclean
      have hupdated : x.updated = some (free + x.victim.cachedSizeBytes) := by
        rw [← hafter]
        exact hanswer x.updated rfl
      have hfree : x.free free = free + x.victim.cachedSizeBytes := by
        rw [Attempt.free, if_pos hclean, hupdated, Option.getD_some]
      refine ⟨by rw [Estimates, if_pos hclean, hfree], ih hxs ?_⟩
      rw [hfree, ← hafter]
      exact hrest
    · rw [if_neg hclean] at h
      obtain ⟨-, hrest⟩ := h
      have hafter : freeAfter size free (x.call sv.pathResolver) = free := if_neg hclean
      have hfree : x.free free = free := if_neg hclean
      refine ⟨by rw [Estimates, if_neg hclean, hfree], ih hxs ?_⟩
      rw [hfree, ← hafter]
      exact hrest

theorem allEstimate_of_fails {xs : List Attempt} {free : UInt64} {n : ℕ}
    (h : (xs.flatMap (Attempt.calls sv)).filterMap freeAnswer = List.replicate n none) :
    AllEstimate free xs := by
  induction xs generalizing free n with
  | nil => trivial
  | cons x xs ih =>
    rw [List.flatMap_cons, List.filterMap_append, Attempt.calls] at h
    by_cases hclean : x.result.Clean
    · rw [if_pos hclean] at h
      cases n with
      | zero => cases h
      | succ n =>
        obtain ⟨hupdated, hrest⟩ := List.cons.inj h
        refine ⟨?_, ih hrest⟩
        rw [Estimates, if_pos hclean, Attempt.free, if_pos hclean, hupdated, Option.getD_none]
    · rw [if_neg hclean] at h
      refine ⟨?_, ih h⟩
      rw [Estimates, if_neg hclean, Attempt.free, if_neg hclean]

/-- **While the sums fit, `make_room_for` counts in the natural numbers**, when the provider
leaves the estimate. -/
theorem sumScan_of_room {required free : UInt64} {victims : List CachedFileRef} {xs : List Attempt}
    (h : Scanned (required ≤ ·) Attempt.free (fun x : Attempt => x.victim) free victims xs)
    (hestimate : AllEstimate free xs) (hsum : free.toNat + sizeOf victims < 2 ^ 64) :
    SumScan required.toNat free.toNat victims (xs.map (·.toRemoval)) := by
  induction h with
  | done => exact .done
  | stop hs => exact .stop (UInt64.le_iff_toNat_le.1 hs)
  | @step s x l xs hs _ ih =>
    rw [sizeOf_cons] at hsum
    obtain ⟨hx, hxs⟩ := hestimate
    have hbytes : (x.free s).toNat = s.toNat + x.bytes := by
      rw [show x.free s = _ from hx]
      unfold Removal.bytes
      split
      · rw [UInt64.toNat_add, Nat.mod_eq_of_lt (by omega)]
      · rfl
    have hle := bytes_le x.toRemoval
    have hscan := ih hxs (by omega)
    rw [hbytes] at hscan
    exact .step (x := x.toRemoval) (fun hle => hs (UInt64.le_iff_toNat_le.2 hle)) hscan


/-! ## The two loops agree -/

/-- The size that the index records for a cached file. -/
def CacheIndex.cachedSize (ix : CacheIndex) (q : WString) : UInt64 :=
  ((ix.files.lookup q).bind (·.cachedSizeBytes)).getD 0

/-- The provider answers `free` first; after a removal without error it answers the previous
value and the size of the victim, or it fails from then on. -/
def Provides (ix : CacheIndex) (free : UInt64) (tr : List Answered) : Prop :=
  ReportsFreed ix.cachedSize free tr ∨ FailsAfterFirst free tr

/-- The paths removed without error, in order. -/
def errorFree (tr : List Answered) : List WString :=
  ((tr.filterMap removalAnswer).filter fun r => r.2.Clean).map (·.1)

/-- `taken` is the shortest run of `victims` with `target` bytes, or all of them. -/
structure ShortestRun (target : ℕ) (victims taken : List CachedFileRef) : Prop where
  isPrefix : taken <+: victims
  reaches : target ≤ sizeOf taken ∨ taken = victims
  shortest : ∀ k < taken.length, sizeOf (taken.take k) < target

theorem cachedSize_candidate {ix : CacheIndex} {v : CachedFileRef} (hfiles : ix.ByLastAccess files)
    (hv : v ∈ files) : ix.cachedSize v.relativePath = v.cachedSizeBytes := by
  obtain ⟨row, hrow, -, hsize⟩ := (hfiles.present v).1 hv
  unfold CacheIndex.cachedSize
  rw [hrow, hsize]
  rfl

/-- `--free` without the file to come has the candidates of `make_room_for`. -/
theorem freeCandidates_eq (files : List CachedFileRef) (hp : p ≠ []) :
    freeCandidates files p = candidates files p := by
  unfold freeCandidates candidates
  refine List.filter_congr fun v _ => ?_
  simp [hp]

/-- **The calls of `evict_least_recently_used`.** -/
theorem evictLeastRecentlyUsed_traces {result : EvictionResult} (htarget : targetBytes ≠ 0)
    (hfiles : w.index.ByLastAccess files)
    (h : (evictLeastRecentlyUsed pathResolver targetBytes exclude).Traces (S := calls) (exec sv) w
      tr (.ok result) w') :
    ∃ xs : List Removal,
      Scanned (targetBytes ≤ ·.bytesFreed) EvictionResult.add (·.victim) {}
        (freeCandidates files exclude) xs ∧
      tr = victimsQuery files :: xs.flatMap (Removal.calls pathResolver) ∧
      result = xs.foldl EvictionResult.add {} ∧
      w'.index = xs.foldl Removal.index w.index := by
  unfold evictLeastRecentlyUsed at h
  rw [if_neg htarget] at h
  obtain ⟨victims, m, rest, rfl, ⟨hvictims, rfl⟩, hrest⟩ := Prog.traces_perform_ok h
  obtain rfl := (CacheIndex.IsCachedFilesByLastAccess.byLastAccess hvictims).eq hfiles
  obtain ⟨xs, hscan, rfl, hresult, hindex⟩ := evictFiles_traces hrest
  exact ⟨xs, hscan, rfl, hresult, hindex⟩

/-- The provider's first answer is `free`. -/
theorem Provides.first {ix : CacheIndex} {free : UInt64} {answer : Option UInt64}
    {rest : List Answered} (h : Provides ix free (roomQueries sv w p answer ++ rest)) :
    answer = some free := by
  rcases h with ⟨-, hanswer, -⟩ | ⟨n, hn⟩
  · exact hanswer answer rfl
  · exact (List.cons.inj hn).1

/-- The provider's later answers leave the estimate of every pass. -/
theorem Provides.allEstimate {free : UInt64} {answer : Option UInt64} {xs : List Attempt}
    (hfiles : w.index.ByLastAccess files) (hvictims : ∀ x ∈ xs, x.victim ∈ candidates files p)
    (h : Provides w.index free (roomQueries sv w p answer ++
      victimsQuery files :: xs.flatMap (Attempt.calls sv))) : AllEstimate free xs := by
  rcases h with ⟨-, -, -, hrest⟩ | ⟨n, hn⟩
  · exact allEstimate_of_reports (fun x hx =>
      cachedSize_candidate hfiles (List.mem_of_mem_filter (hvictims x hx))) hrest
  · exact allEstimate_of_fails (List.cons.inj hn).2

theorem filterMap_removalAnswer_room (xs : List Attempt) :
    (xs.flatMap (Attempt.calls sv)).filterMap removalAnswer =
      xs.map fun x => (x.victim.relativePath, x.result) := by
  refine filterMap_calls (fun x => ?_) xs
  unfold Attempt.calls
  split <;> rfl

theorem filterMap_removalAnswer_free (xs : List Removal) :
    (xs.flatMap (Removal.calls pathResolver)).filterMap removalAnswer =
      xs.map fun x => (x.victim.relativePath, x.result) := by
  refine filterMap_calls (fun x => ?_) xs
  unfold Removal.calls
  split <;> rfl

theorem errorFree_of_answers {xs : List Removal}
    (h : tr.filterMap removalAnswer = xs.map fun x => (x.victim.relativePath, x.result)) :
    errorFree tr = (xs.filter fun x => x.result.Clean).map (·.victim.relativePath) := by
  unfold errorFree
  rw [h, List.filter_map, List.map_map]
  rfl

/-- Removals are determined by the victims and the engine's answers. -/
theorem eq_of_outcome {outcome : WString → RemoveResult} {xs : List Removal}
    (h : ∀ x ∈ xs, x.result = outcome x.victim.relativePath) :
    xs = (xs.map (·.victim)).map fun v => ⟨v, outcome v.relativePath⟩ := by
  induction xs with
  | nil => rfl
  | cons x xs ih =>
    obtain ⟨hx, hxs⟩ := List.forall_mem_cons.1 h
    rw [List.map_cons, List.map_cons, ← ih hxs, ← hx]

/-- The passes without error, with an engine whose answers are `outcome`. -/
theorem filter_clean {outcome : WString → RemoveResult} {xs : List Removal}
    (houtcome : ∀ x ∈ xs, x.result = outcome x.victim.relativePath) :
    xs.filter (fun x => x.result.Clean) =
      xs.filter fun x => (outcome x.victim.relativePath).Clean := by
  refine List.filter_congr fun x hx => ?_
  rw [houtcome x hx]

/-- **The victims removed without error are a shortest run.** -/
theorem shortestRun_of_sumScan {outcome : WString → RemoveResult} {target : ℕ}
    {victims : List CachedFileRef} {xs : List Removal} (h : SumScan target 0 victims xs)
    (houtcome : ∀ x ∈ xs, x.result = outcome x.victim.relativePath) :
    ShortestRun target (victims.filter fun v => (outcome v.relativePath).Clean)
      ((xs.filter fun x => x.result.Clean).map (·.victim)) := by
  -- the victims that could not be removed leave the sum as it is
  let keep (v : CachedFileRef) : Bool := (outcome v.relativePath).Clean
  have hskip : ∀ x ∈ xs, keep x.victim = false → ∀ n, n + x.bytes = n := by
    intro x hx hfails n
    have hfails : decide (outcome x.victim.relativePath).Clean = false := hfails
    rw [← houtcome x hx] at hfails
    rw [Removal.bytes, if_neg (of_decide_eq_false hfails), Nat.add_zero]
  have hscan : SumScan target 0 (victims.filter keep) (xs.filter fun x => keep x.victim) :=
    h.filter hskip
  rw [filter_clean houtcome]
  generalize hys : xs.filter (fun x => (outcome x.victim.relativePath).Clean) = ys at hscan ⊢
  have hclean : ∀ y ∈ ys, y.result.Clean := by
    intro y hy
    rw [← hys] at hy
    obtain ⟨hmem, hy⟩ := List.mem_filter.1 hy
    rw [houtcome y hmem]
    exact of_decide_eq_true hy
  have hsum (zs : List Removal) (hzs : ∀ z ∈ zs, z.result.Clean) :
      zs.foldl (fun n x => n + x.bytes) 0 = sizeOf (zs.map (·.victim)) := by
    rw [foldl_add, Nat.zero_add, sum_bytes, List.filter_eq_self.2]
    exact fun z hz => decide_eq_true (hzs z hz)
  refine ⟨hscan.isPrefix, ?_, ?_⟩
  · rw [← hsum ys hclean]
    exact hscan.met
  · intro k hk
    rw [List.length_map] at hk
    rw [← List.map_take, ← hsum _ fun z hz => hclean z (List.mem_of_mem_take hz)]
    exact Nat.not_le.1 (hscan.unmet k hk)

/-- The passes of `make_room_for`, from the free space of its first query on. -/
theorem makeRoomFor_sumScan {outcome : WString → RemoveResult} {free : UInt64} (hon : sv.Evicts)
    (hfiles : w.index.ByLastAccess files)
    (hfree : free < requiredFor sv w.index p)
    (hsum : free.toNat + sizeOf (candidates files p) < 2 ^ 64)
    (h : (makeRoomFor sv p).Traces (S := calls) (exec sv) w tr (.ok ()) w')
    (houtcomes : HasOutcomes outcome tr) (hprovider : Provides w.index free tr) :
    ∃ xs : List Attempt,
      tr = roomQueries sv w p (some free) ++
        victimsQuery files :: xs.flatMap (Attempt.calls sv) ∧
      SumScan (requiredFor sv w.index p).toNat free.toNat (candidates files p)
        (xs.map (·.toRemoval)) ∧
      (∀ x ∈ xs.map (·.toRemoval), x.result = outcome x.victim.relativePath) ∧
      w'.index = (xs.map (·.toRemoval)).foldl Removal.index w.index := by
  rcases makeRoomFor_traces hfiles h with ⟨hoff, -⟩ | ⟨-, answer, ⟨henough, -, rfl⟩ | hrest⟩
  · exact absurd hon hoff
  · -- the first query shows too little free space
    rw [← List.append_nil (roomQueries sv w p answer)] at hprovider
    exact absurd hfree (UInt64.not_lt.2 (henough free hprovider.first))
  obtain ⟨first, xs, rfl, -, hscan, hindex, rfl⟩ := hrest
  obtain rfl := Option.some.inj hprovider.first
  have hvictims : ∀ x ∈ xs, x.victim ∈ candidates files p := fun x hx =>
    hscan.isPrefix.subset (List.mem_map_of_mem hx)
  refine ⟨xs, rfl, sumScan_of_room hscan (hprovider.allEstimate hfiles hvictims) hsum, ?_, hindex⟩
  intro x hx
  obtain ⟨x', hx', rfl⟩ := List.mem_map.1 hx
  exact houtcomes.room (fun x hx => List.mem_append_right _ (List.mem_cons_of_mem _ hx)) x' hx'

/-- The passes of `--free`. -/
theorem evictLeastRecentlyUsed_sumScan {outcome : WString → RemoveResult}
    {result : EvictionResult} (htarget : targetBytes ≠ 0) (hfiles : w.index.ByLastAccess files)
    (hsum : sizeOf (freeCandidates files exclude) < 2 ^ 64)
    (h : (evictLeastRecentlyUsed pathResolver targetBytes exclude).Traces (S := calls) (exec sv) w
      tr (.ok result) w') (houtcomes : HasOutcomes outcome tr) :
    ∃ ys : List Removal,
      tr = victimsQuery files :: ys.flatMap (Removal.calls pathResolver) ∧
      SumScan targetBytes.toNat 0 (freeCandidates files exclude) ys ∧
      (∀ y ∈ ys, y.result = outcome y.victim.relativePath) ∧
      result.bytesFreed.toNat = (ys.map Removal.bytes).sum ∧
      result.filesRemoved = (ys.filter fun y => y.result.Clean).length ∧
      w'.index = ys.foldl Removal.index w.index := by
  obtain ⟨ys, hscan, rfl, rfl, hindex⟩ := evictLeastRecentlyUsed_traces htarget hfiles h
  have hzero : ({} : EvictionResult).bytesFreed.toNat = 0 := rfl
  obtain ⟨hsums, hbytes, hcount⟩ := sumScan_of_free hscan (by rw [hzero]; omega)
  rw [hzero, Nat.zero_add] at hbytes
  exact ⟨ys, rfl, hsums, HasOutcomes.free fun x hx => houtcomes x (List.mem_cons_of_mem _ hx),
    hbytes, hcount.trans (Nat.zero_add _), hindex⟩

/-- From `free` up to `required` as from 0 up to the difference. -/
theorem removals_agree {outcome : WString → RemoveResult} {free target : ℕ}
    {victims : List CachedFileRef} {xs ys : List Removal}
    (hxs : SumScan (free + target) free victims xs) (hys : SumScan target 0 victims ys)
    (hx : ∀ x ∈ xs, x.result = outcome x.victim.relativePath)
    (hy : ∀ y ∈ ys, y.result = outcome y.victim.relativePath) : xs = ys := by
  have hsame : xs.map (·.victim) = ys.map (·.victim) := by
    refine hxs.agree (R := fun n m => n = free + m) ?_ hys ?_ rfl
    · intro n m hnm
      omega
    · intro x hmem y hmem' hxy n m hnm
      have hbytes : x.bytes = y.bytes := by
        unfold Removal.bytes
        rw [hx x hmem, hy y hmem', hxy]
      omega
  rw [eq_of_outcome hx, hsame, ← eq_of_outcome hy]

/-- **The two eviction loops agree.** -/
theorem evictions_agree {outcome : WString → RemoveResult} {v v' : World V} {free : UInt64}
    {result : EvictionResult} {tr' : List Answered} (hp : p ≠ []) (hon : sv.Evicts)
    (hfiles : w.index.ByLastAccess files) (hindex : v.index = w.index)
    (hfree : free < requiredFor sv w.index p)
    (hsum : free.toNat + sizeOf (candidates files p) < 2 ^ 64)
    (hroom : (makeRoomFor sv p).Traces (S := calls) (exec sv) w tr (.ok ()) w')
    (hevict : (evictLeastRecentlyUsed sv.pathResolver (requiredFor sv w.index p - free) p).Traces
      (S := calls) (exec sv) v tr' (.ok result) v')
    (houtcomes : HasOutcomes outcome tr) (houtcomes' : HasOutcomes outcome tr')
    (hprovider : Provides w.index free tr) :
    tr.filterMap removalCall = tr'.filterMap removalCall ∧ w'.index = v'.index ∧
    ∃ taken, errorFree tr = taken.map (·.relativePath) ∧
      errorFree tr' = taken.map (·.relativePath) ∧
      ShortestRun (requiredFor sv w.index p - free).toNat
        ((candidates files p).filter fun c => (outcome c.relativePath).Clean) taken := by
  have htarget : (requiredFor sv w.index p).toNat =
      free.toNat + (requiredFor sv w.index p - free).toNat := by
    have hlt := UInt64.lt_iff_toNat_lt.1 hfree
    rw [UInt64.toNat_sub_of_le _ _ (UInt64.le_of_lt hfree)]
    omega
  have hne : requiredFor sv w.index p - free ≠ 0 := by
    intro hzero
    have hlt := UInt64.lt_iff_toNat_lt.1 hfree
    rw [hzero, UInt64.toNat_zero] at htarget
    omega
  have hcandidates : freeCandidates files p = candidates files p := freeCandidates_eq files hp
  obtain ⟨xs, rfl, hscan, hxs, hixs⟩ := makeRoomFor_sumScan hon hfiles hfree hsum hroom houtcomes hprovider
  obtain ⟨ys, rfl, hscan', hys, -, -, hiys⟩ := evictLeastRecentlyUsed_sumScan hne
    (hindex ▸ hfiles) (by rw [hcandidates]; omega) hevict houtcomes'
  rw [hcandidates] at hscan'
  rw [htarget] at hscan
  have hequal := removals_agree hscan hscan' hxs hys
  refine ⟨?_, ?_, _, ?_, ?_, shortestRun_of_sumScan hscan' hys⟩
  · calc (xs.flatMap (Attempt.calls sv)).filterMap removalCall
        = xs.map fun x =>
            (x.victim.relativePath, sv.pathResolver.cacheAbsolute x.victim.relativePath) :=
          filterMap_removalCall_room xs
      _ = ys.map fun x =>
            (x.victim.relativePath, sv.pathResolver.cacheAbsolute x.victim.relativePath) := by
          rw [← hequal, List.map_map]
          rfl
      _ = _ := (filterMap_removalCall_free ys).symm
  · rw [hixs, hiys, hequal, hindex]
  · have hanswers : (roomQueries sv w p (some free) ++
        victimsQuery files :: xs.flatMap (Attempt.calls sv)).filterMap removalAnswer =
        ys.map fun y => (y.victim.relativePath, y.result) := by
      rw [← hequal, List.map_map]
      exact filterMap_removalAnswer_room xs
    rw [errorFree_of_answers hanswers, List.map_map]
    rfl
  · have hanswers : (victimsQuery files ::
        ys.flatMap (Removal.calls sv.pathResolver)).filterMap removalAnswer =
        ys.map fun y => (y.victim.relativePath, y.result) := filterMap_removalAnswer_free ys
    rw [errorFree_of_answers hanswers, List.map_map]
    rfl

/-! ## What `--free` reports -/

/-- The removals that really removed a file, and did it without error. -/
def freedAnswers (tr : List Answered) : List (WString × RemoveResult) :=
  (tr.filterMap removalAnswer).filter fun r => r.2.Clean ∧ r.2.missing = false

/-- The sizes that the index `ix` records for them. -/
def freedSize (ix : CacheIndex) (tr : List Answered) : ℕ :=
  ((freedAnswers tr).map fun r => (ix.cachedSize r.1).toNat).sum

/-- The report of `--free` says what it freed. -/
structure FreedReported (ix : CacheIndex) (files : List CachedFileRef) (targetBytes : UInt64)
    (exclude : WString) (tr : List Answered) (result : EvictionResult) : Prop where
  bytesFreed : result.bytesFreed.toNat = freedSize ix tr
  filesRemoved : result.filesRemoved = (freedAnswers tr).length
  /-- Candidates are left untried only with enough freed. -/
  tried : targetBytes.toNat ≤ freedSize ix tr ∨
    (tr.filterMap removalAnswer).map (·.1) = (freeCandidates files exclude).map (·.relativePath)

/-- A candidate whose file is already gone comes only after enough others. -/
def GoneLast (outcome : WString → RemoveResult) (targetBytes : UInt64)
    (victims : List CachedFileRef) : Prop :=
  ∀ before v after, victims = before ++ v :: after → (outcome v.relativePath).Clean →
    (outcome v.relativePath).missing = true →
    targetBytes.toNat ≤ sizeOf (before.filter fun c => (outcome c.relativePath).Clean)

/-- The error-free bytes of passes with the answers of `outcome`. -/
theorem sum_bytes_outcome {outcome : WString → RemoveResult} {xs : List Removal}
    (houtcome : ∀ x ∈ xs, x.result = outcome x.victim.relativePath) :
    (xs.map Removal.bytes).sum =
      sizeOf ((xs.map (·.victim)).filter fun c => (outcome c.relativePath).Clean) := by
  rw [sum_bytes, filter_clean houtcome, List.filter_map]
  rfl

/-- **A gone file is tried unless it comes last.** -/
theorem goneLast_iff {outcome : WString → RemoveResult} {victims : List CachedFileRef}
    {xs : List Removal} (h : SumScan targetBytes.toNat 0 victims xs)
    (houtcome : ∀ x ∈ xs, x.result = outcome x.victim.relativePath) :
    GoneLast outcome targetBytes victims ↔ ∀ x ∈ xs, x.result.Clean → x.result.missing = false := by
  obtain ⟨untried, hvictims⟩ := h.isPrefix
  constructor
  · intro hlast x hx hclean
    by_contra hmissing
    obtain ⟨before, after, rfl⟩ := List.append_of_mem hx
    have hsplit : victims = before.map (·.victim) ++ x.victim :: (after.map (·.victim) ++ untried) := by
      rw [← hvictims]
      simp
    rw [houtcome x hx] at hclean hmissing
    have hbefore := hlast _ _ _ hsplit hclean (by simpa using hmissing)
    rw [← sum_bytes_outcome fun y hy => houtcome y (List.mem_append_left _ hy)] at hbefore
    -- the loop would have stopped before this victim
    have hunmet := h.unmet before.length (by simp)
    rw [List.take_left', foldl_add, Nat.zero_add] at hunmet
    · exact hunmet hbefore
    · rfl
  · intro hpresent before v after hsplit hclean hmissing
    by_contra hshort
    have htried : v ∈ xs.map (·.victim) := by
      rcases h.met with henough | hall
      · rw [foldl_add, Nat.zero_add, sum_bytes_outcome houtcome] at henough
        rw [hsplit] at hvictims
        rcases List.append_eq_append_iff.1 hvictims with ⟨more, rfl, -⟩ | ⟨more, hmore, hcons⟩
        · -- the loop stopped earlier, with enough
          have hle := sizeOf_sublist ((List.sublist_append_left (xs.map (·.victim)) more).filter
            fun c => decide (outcome c.relativePath).Clean)
          omega
        · cases more with
          | nil =>
            rw [hmore, List.append_nil] at henough
            exact absurd henough hshort
          | cons u more =>
            rw [hmore, (List.cons.inj hcons).1]
            exact List.mem_append_right _ List.mem_cons_self
      · rw [hall, hsplit]
        exact List.mem_append_right _ List.mem_cons_self
    obtain ⟨x, hx, rfl⟩ := List.mem_map.1 htried
    rw [← houtcome x hx] at hclean hmissing
    rw [hpresent x hx hclean] at hmissing
    cases hmissing

/-- The removals that count, in the passes of `--free`. -/
theorem freedAnswers_free (files : List CachedFileRef) (xs : List Removal) :
    freedAnswers (victimsQuery files :: xs.flatMap (Removal.calls pathResolver)) =
      (xs.filter fun x => x.result.Clean ∧ x.result.missing = false).map fun x =>
        (x.victim.relativePath, x.result) := by
  unfold freedAnswers
  rw [show (victimsQuery files :: xs.flatMap (Removal.calls pathResolver)).filterMap removalAnswer =
    xs.map fun x => (x.victim.relativePath, x.result) from filterMap_removalAnswer_free xs,
    List.filter_map]
  rfl

theorem freedSize_free {xs : List Removal} (hfiles : w.index.ByLastAccess files)
    (hvictims : ∀ x ∈ xs, x.victim ∈ files) :
    freedSize w.index (victimsQuery files :: xs.flatMap (Removal.calls pathResolver)) =
      sizeOf ((xs.filter fun x => x.result.Clean ∧ x.result.missing = false).map (·.victim)) := by
  unfold freedSize sizeOf
  rw [freedAnswers_free, List.map_map, List.map_map]
  congr 1
  refine List.map_congr_left fun x hx => ?_
  exact congrArg UInt64.toNat (cachedSize_candidate hfiles (hvictims x (List.mem_of_mem_filter hx)))

/-- Only present files were counted, or one was gone. -/
theorem filter_present_iff (xs : List Removal) :
    (xs.filter fun x => x.result.Clean).length =
        (xs.filter fun x => x.result.Clean ∧ x.result.missing = false).length ↔
      ∀ x ∈ xs, x.result.Clean → x.result.missing = false := by
  have hfilter : xs.filter (fun x => x.result.Clean ∧ x.result.missing = false) =
      (xs.filter fun x => x.result.Clean).filter fun x => x.result.missing = false := by
    rw [List.filter_filter]
    refine List.filter_congr fun x _ => ?_
    rw [Bool.decide_and, Bool.and_comm]
  rw [hfilter, eq_comm, List.length_filter_eq_length_iff]
  constructor
  · intro h x hx hclean
    exact of_decide_eq_true (h x (List.mem_filter.2 ⟨hx, decide_eq_true hclean⟩))
  · intro h x hx
    obtain ⟨hx, hclean⟩ := List.mem_filter.1 hx
    exact decide_eq_true (h x hx (of_decide_eq_true hclean))

/-- **`--free` reports what it freed exactly if** every file that is already gone comes after
enough others. -/
theorem freedReported_iff {outcome : WString → RemoveResult} {result : EvictionResult}
    (hfiles : w.index.ByLastAccess files)
    (hsum : sizeOf (freeCandidates files exclude) < 2 ^ 64)
    (h : (evictLeastRecentlyUsed pathResolver targetBytes exclude).Traces (S := calls) (exec sv) w
      tr (.ok result) w')
    (houtcomes : HasOutcomes outcome tr) :
    FreedReported w.index files targetBytes exclude tr result ↔
      GoneLast outcome targetBytes (freeCandidates files exclude) := by
  by_cases hzero : targetBytes = 0
  · -- nothing is asked for, and nothing is done
    unfold evictLeastRecentlyUsed at h
    rw [if_pos hzero] at h
    obtain ⟨rfl, hr, rfl⟩ := h
    cases hr
    rw [hzero]
    exact ⟨fun _ _ _ _ _ _ _ => Nat.zero_le _, fun _ => ⟨rfl, rfl, .inl (Nat.zero_le _)⟩⟩
  obtain ⟨xs, rfl, hsums, hxs, hbytes, hcount, -⟩ :=
    evictLeastRecentlyUsed_sumScan hzero hfiles hsum h houtcomes
  have hvictims : ∀ x ∈ xs, x.victim ∈ files := fun x hx =>
    List.mem_of_mem_filter (hsums.isPrefix.subset (List.mem_map_of_mem hx))
  rw [goneLast_iff hsums hxs, ← filter_present_iff]
  constructor
  · intro hreport
    have hfiles := hreport.filesRemoved
    rw [hcount, freedAnswers_free, List.length_map] at hfiles
    exact hfiles
  · intro hpresent
    have hfilter : xs.filter (fun x => x.result.Clean ∧ x.result.missing = false) =
        xs.filter fun x => x.result.Clean := by
      refine List.filter_congr fun x hx => ?_
      have := (filter_present_iff xs).1 hpresent x hx
      simpa using this
    have hsize : freedSize w.index (victimsQuery files :: xs.flatMap (Removal.calls pathResolver)) =
        (xs.map Removal.bytes).sum := by
      rw [freedSize_free hfiles hvictims, hfilter, sum_bytes]
    refine ⟨?_, ?_, ?_⟩
    · rw [hbytes, hsize]
    · rw [hcount, freedAnswers_free, hfilter, List.length_map]
    · rw [hsize]
      rcases hsums.met with henough | hall
      · rw [foldl_add] at henough
        exact .inl (henough.trans (Nat.zero_add _).le)
      · refine .inr ?_
        rw [← hall, List.map_map]
        exact (congrArg (List.map (·.1)) (filterMap_removalAnswer_free xs)).trans List.map_map

/-! ## Executing both loops -/

instance ReportsFreed.decidable (size : WString → UInt64) :
    (free : UInt64) → (tr : List Answered) → Decidable (ReportsFreed size free tr)
  | _, [] => .isTrue trivial
  | free, x :: tr =>
    -- over the one answer there is, not over all that there could be
    have : Decidable (∀ answer ∈ freeAnswer x, answer = some free) := Option.decidableForallMem _
    have := ReportsFreed.decidable size (freeAfter size free x) tr
    inferInstanceAs (Decidable (_ ∧ _))

instance (outcome : WString → RemoveResult) (tr : List Answered) :
    Decidable (HasOutcomes outcome tr) := inferInstanceAs (Decidable (∀ x ∈ tr, _))

/-- With seven bytes free and fourteen wanted, both loops pass over `[97]` and remove the other
two files in the order of their last access, which is not that of their paths. -/
theorem evictions_agree_threeCached : ∃ tr tr' w' v' result,
    (makeRoomFor (shrinkingService 5 { minFreeBytes := 14 }) [97]).Traces (S := calls)
      (exec (shrinkingService 5 { minFreeBytes := 14 })) threeCached tr (.ok ()) w' ∧
    (evictLeastRecentlyUsed plainPaths 7 [97]).Traces (S := calls)
      (exec (shrinkingService 5 { minFreeBytes := 14 })) threeCached tr' (.ok result) v' ∧
    tr.filterMap removalCall = tr'.filterMap removalCall ∧ w'.index = v'.index ∧
    errorFree tr = [[99], [98]] := by
  obtain ⟨tr, _, w', h, rfl, houtcomes, hreports, herrors⟩ := exists_shrinking 5
    { minFreeBytes := 14 } (makeRoomFor (shrinkingService 5 { minFreeBytes := 14 }) [97]) threeCached
    (fun x => x.2.1 = .ok () ∧ HasOutcomes (fun _ => { removed := true }) x.1 ∧
      ReportsFreed threeCached.index.cachedSize 7 x.1 ∧ errorFree x.1 = [[99], [98]])
    (by decide +kernel)
  obtain ⟨tr', _, v', h', hr, houtcomes'⟩ := exists_shrinking 5 { minFreeBytes := 14 }
    (evictLeastRecentlyUsed plainPaths 7 [97]) threeCached
    (fun x => x.2.1 = .ok ⟨10, 2⟩ ∧ HasOutcomes (fun _ => { removed := true }) x.1)
    (by decide +kernel)
  subst hr
  have hfree : (7 : UInt64) < requiredFor (shrinkingService 5 { minFreeBytes := 14 })
      threeCached.index [97] := by decide +kernel
  obtain ⟨hcalls, hindex, -⟩ := evictions_agree (by decide) (by decide) threeCached_byLastAccess rfl
    hfree (by decide +kernel) h h' houtcomes houtcomes' (.inl hreports)
  exact ⟨tr, tr', w', v', _, h, h', hcalls, hindex, herrors⟩

/-- The file of `[98]` is already gone. -/
def goneLast : World Disk := { threeCached with volume := { files := [[97], [99]] } }

/-- Ten bytes of the two oldest files are freed and reported; the loop does not come to the
file that is already gone. -/
theorem freedReported_threeCached : ∃ tr result w',
    (evictLeastRecentlyUsed plainPaths 10 []).Traces (S := calls) (exec (diskService {})) goneLast tr
      (.ok result) w' ∧
    FreedReported threeCached.index [⟨[97], 5⟩, ⟨[99], 5⟩, ⟨[98], 5⟩] 10 [] tr result := by
  -- the engine's answers, with the last file gone
  let outcome (q : WString) : RemoveResult := if q = [98] then { missing := true } else { removed := true }
  obtain ⟨tr, _, w', h, hr, houtcomes⟩ := exists_traces {} (evictLeastRecentlyUsed plainPaths 10 [])
    goneLast (fun x => x.2.1 = .ok ⟨10, 2⟩ ∧ HasOutcomes outcome x.1) (by decide +kernel)
  subst hr
  have hfiles : goneLast.index.ByLastAccess [⟨[97], 5⟩, ⟨[99], 5⟩, ⟨[98], 5⟩] :=
    threeCached_byLastAccess
  refine ⟨tr, _, w', h, (freedReported_iff hfiles (by decide +kernel) h houtcomes).2 ?_⟩
  show GoneLast outcome 10 [⟨[97], 5⟩, ⟨[99], 5⟩, ⟨[98], 5⟩]
  intro before v after hsplit _ hmissing
  rcases before with _ | ⟨a, _ | ⟨b, before⟩⟩
  · obtain ⟨rfl, -⟩ := List.cons.inj hsplit
    exact absurd hmissing (by decide)
  · obtain ⟨-, hsplit⟩ := List.cons.inj hsplit
    obtain ⟨rfl, -⟩ := List.cons.inj hsplit
    exact absurd hmissing (by decide)
  · -- the file comes after the first two, which are enough
    obtain ⟨ha, htail⟩ := List.cons.inj hsplit
    obtain ⟨hb, -⟩ := List.cons.inj htail
    rw [← ha, ← hb, List.filter_cons_of_pos (by decide), List.filter_cons_of_pos (by decide),
      sizeOf_cons, sizeOf_cons]
    show 10 ≤ 5 + (5 + _)
    omega

/-- **A file that is already gone is counted**: its five bytes are reported as freed, and
the loop stops before the files that are there. -/
theorem gone_reported : ∃ tr w',
    (evictLeastRecentlyUsed plainPaths 5 []).Traces (S := calls) (exec (diskService {}))
      { threeCached with volume := { files := [[99], [98]] } } tr (.ok ⟨5, 1⟩) w' ∧
    ¬ FreedReported threeCached.index [⟨[97], 5⟩, ⟨[99], 5⟩, ⟨[98], 5⟩] 5 [] tr ⟨5, 1⟩ := by
  obtain ⟨tr, _, w', h, rfl, hfreed⟩ := exists_traces {} (evictLeastRecentlyUsed plainPaths 5 [])
    { threeCached with volume := { files := [[99], [98]] } }
    (fun x => x.2.1 = .ok ⟨5, 1⟩ ∧ freedAnswers x.1 = []) (by decide +kernel)
  refine ⟨tr, w', h, fun hreport => ?_⟩
  have hcount : 1 = (freedAnswers tr).length := hreport.filesRemoved
  rw [hfreed] at hcount
  cases hcount

end SsdCache
