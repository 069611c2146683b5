import SsdCache.Proof.Evictions
import SsdCache.Proof.Truth

/-!
# Free space for the file that comes in

`make_room_for` makes room for the size that the record of the file shows. An access with an
unknown size writes 0 there.

* `roomMade_of_run`: before every copy there is room for the size that was read, or every
  other cached file was tried.
* `covers_of_run`: there is room for the source, in every run in which no record shows less
  than the source has.
* `unknown_size_uncovered`: an access with an unknown size lets a copy begin without room.
-/

namespace SsdCache

open Atomic

variable {V : Type} {sv : Service V} {free : V → UInt64} {w w' : World V} {h : History V}
variable {c : State V} {p q : WString} {l : Event} {a : Call} {t : Party}

/-- The provider reports the true free space and never fails. -/
def Platform.ReportsFree (E : Platform V) (free : V → UInt64) : Prop :=
  ∀ v root r, E.freeBytes v root r → r = .ok (some (free v))

/-! ## What the worker looked at -/

/-- The size `make_room_for` takes from a record. -/
def incomingSize (record : Option FileRecord) : UInt64 := (record.map (·.sourceSizeBytes)).getD 0

/-- The size that the worker read when it began to make room. -/
def sizeAnswer : Event → Option UInt64
  | .act .worker (.query (.fileRecord _)) (.ok record) => some (incomingSize record)
  | _ => none

def sizeRead : History V → UInt64
  | [] => 0
  | (_, l) :: h => (sizeAnswer l).getD (sizeRead h)

/-- The file that the worker tried to remove. -/
def triedPath : Event → Option WString
  | .act .worker (.removeCachedFile q _) _ => some q
  | _ => none

/-- The worker tried to remove `q` since it began to make room. -/
def Tried (q : WString) (h : History V) : Prop :=
  Since (fun _ _ l => triedPath l = some q) (fun _ _ l => (sizeAnswer l).isSome = true) h

instance (q : WString) (h : History V) : Decidable (Tried q h) :=
  inferInstanceAs (Decidable (Since _ _ h))

/-- There is room for the size that was read, or every other cached file was tried. -/
def RoomMade (sv : Service V) (free : V → UInt64) (p : WString) (x : History V × World V) : Prop :=
  max (sizeRead x.1) sv.settings.minFreeBytes ≤ free x.2.volume ∨
    ∀ q, q ≠ p → x.2.index.Present q → Tried q x.1

/-! ## The other threads -/

/-- A move that is not the worker's. -/
structure RoomQuiet (x y : History V × World V) : Prop where
  size : sizeRead y.1 = sizeRead x.1
  tried : ∀ q, Tried q y.1 ↔ Tried q x.1
  volume : y.2.volume = x.2.volume
  present : ∀ q, y.2.index.Present q → x.2.index.Present q

theorem RoomQuiet.refl (x : History V × World V) : RoomQuiet x x :=
  ⟨rfl, fun _ => Iff.rfl, rfl, fun _ => id⟩

theorem RoomQuiet.trans {x y z : History V × World V} (hxy : RoomQuiet x y) (hyz : RoomQuiet y z) :
    RoomQuiet x z :=
  ⟨hyz.size.trans hxy.size, fun q => (hyz.tried q).trans (hxy.tried q),
    hyz.volume.trans hxy.volume, fun q hq => hxy.present q (hyz.present q hq)⟩

/-- A step that neither begins to make room nor tries a file. -/
theorem roomQuiet_of_step (hsize : sizeAnswer l = none) (htried : triedPath l = none)
    (hvolume : w'.volume = w.volume) (hpresent : ∀ q, w'.index.Present q → w.index.Present q) :
    RoomQuiet (h, w) ((w, l) :: h, w') := by
  refine ⟨?_, fun q => ?_, hvolume, hpresent⟩
  · change (sizeAnswer l).getD (sizeRead h) = sizeRead h
    rw [hsize, Option.getD_none]
  · refine since_frame ?_ ?_
    · rw [htried]
      exact Option.some_ne_none q ∘ Eq.symm
    · rw [hsize]
      exact Bool.false_ne_true

theorem sizeAnswer_ne {r : Except String a.Answer} (ht : t ≠ .worker) :
    sizeAnswer (.act t a r) = none := by
  cases t with
  | worker => exact absurd rfl ht
  | _ => rfl

theorem triedPath_ne {r : Except String a.Answer} (ht : t ≠ .worker) :
    triedPath (.act t a r) = none := by
  cases t with
  | worker => exact absurd rfl ht
  | _ => rfl

theorem roomMade_quiet {x y : History V × World V} (hq : RoomQuiet x y)
    (hx : RoomMade sv free p x) : RoomMade sv free p y := by
  unfold RoomMade at hx ⊢
  rw [hq.size, hq.volume]
  refine hx.imp id fun hall q hqp hpresent => ?_
  rw [hq.tried]
  exact hall q hqp (hq.present q hpresent)

/-! ## The worker -/

/-- A call that copies no file. -/
def Call.CopiesNone : Call → Prop
  | .copyAndHash _ _ _ _ => False
  | _ => True

/-- Room was made before a copy. -/
def KeepsRoom (sv : Service V) (free : V → UInt64) (x : History V × World V) (a : Call) : Prop :=
  ∀ p source cache m, a = .copyAndHash p source cache m → RoomMade sv free p x

/-- The worker's contract. -/
def roomContract (sv : Service V) (free : V → UInt64) :
    Contract calls String (History V × World V) :=
  (system sv concurrent).contract (fun _ _ _ => True) .worker RoomQuiet
    (fun x a _ _ => KeepsRoom sv free x a) RoomQuiet.refl RoomQuiet.trans

/-- Nothing more is asked of the end. -/
def Anything {α X : Type} : Except String α → X → Prop := fun _ _ => True

theorem keepsRoom_none {x : History V × World V} (ha : a.CopiesNone) : KeepsRoom sv free x a := by
  rintro p source cache m rfl
  exact ha.elim

/-- A part of the worker that copies nothing. -/
theorem plain_safe {α : Type} {x : History V × World V} {d : Task α} (hd : d.Only Call.CopiesNone) :
    d.Safe (roomContract sv free) Anything x := by
  refine hd.safe (I := fun _ => True) (fun _ _ _ hx => hx) ?_ trivial
  exact fun ha _ _ => ⟨keepsRoom_none ha, trivial⟩

theorem plain_then {α β : Type} {x : History V × World V} {d : Task α} {f : α → Task β}
    (hd : d.Only Call.CopiesNone) (hf : ∀ v z, (f v).Safe (roomContract sv free) Anything z) :
    (d.bind f).Safe (roomContract sv free) Anything x := by
  refine Prog.safe_bind (Prog.safe_mono (fun r z _ => ?_) (plain_safe hd))
  cases r with
  | ok v => exact hf v z
  | error e => exact fun _ _ => trivial

/-- The eviction loop for `p`: these victims are left, and this free space is tracked. -/
structure Evicting (sv : Service V) (free : V → UInt64) (p : WString) (required : UInt64)
    (victims : List CachedFileRef) (tracked : UInt64) (x : History V × World V) : Prop where
  size : max (sizeRead x.1) sv.settings.minFreeBytes = required
  tracks : required ≤ tracked → required ≤ free x.2.volume
  rest : ∀ q, q ≠ p → x.2.index.Present q → q ∈ victims.map (·.relativePath) ∨ Tried q x.1

theorem evicting_quiet {required tracked : UInt64} {victims : List CachedFileRef}
    {x y : History V × World V} (hq : RoomQuiet x y)
    (hx : Evicting sv free p required victims tracked x) :
    Evicting sv free p required victims tracked y := by
  refine ⟨?_, ?_, fun q hqp hpresent => ?_⟩
  · rw [hq.size]
    exact hx.size
  · rw [hq.volume]
    exact hx.tracks
  · rw [hq.tried]
    exact hx.rest q hqp (hq.present q hpresent)

/-- The loop ends with room made. -/
theorem Evicting.made {required tracked : UInt64} {victims : List CachedFileRef}
    {x : History V × World V} (hx : Evicting sv free p required victims tracked x)
    (hend : required ≤ tracked ∨ victims = []) : RoomMade sv free p x := by
  rcases hend with henough | rfl
  · refine .inl ?_
    rw [hx.size]
    exact hx.tracks henough
  · refine .inr fun q hqp hpresent => ?_
    exact (hx.rest q hqp hpresent).resolve_left List.not_mem_nil

/-- The file that comes in is no victim. -/
theorem Evicting.skip {required tracked : UInt64} {v : CachedFileRef} {victims : List CachedFileRef}
    {x : History V × World V} (hx : Evicting sv free p required (v :: victims) tracked x)
    (hp : v.relativePath = p) : Evicting sv free p required victims tracked x := by
  refine ⟨hx.size, hx.tracks, fun q hqp hpresent => ?_⟩
  rcases hx.rest q hqp hpresent with hmem | htried
  · rw [List.map_cons, List.mem_cons, hp] at hmem
    exact .inl (hmem.resolve_left hqp)
  · exact .inr htried

/-- **One step of the loop**: a call of the worker that raises no record to present, and
leaves the volume unless too little is free. -/
theorem evicting_step {required tracked : UInt64} {victims rest : List CachedFileRef}
    {r : Except String a.Answer} (hx : Evicting sv free p required victims tracked (h, w))
    (hsize : sizeAnswer (.act .worker a r) = none)
    (hvolume : ¬ required ≤ tracked ∨ w'.volume = w.volume)
    (hpresent : ∀ q, w'.index.Present q → w.index.Present q)
    (hrest : ∀ q ∈ victims.map (·.relativePath),
      q ∈ rest.map (·.relativePath) ∨ triedPath (.act .worker a r) = some q) :
    Evicting sv free p required rest tracked ((w, .act .worker a r) :: h, w') := by
  refine ⟨?_, fun henough => ?_, fun q hqp hq => ?_⟩
  · change max ((sizeAnswer (.act .worker a r)).getD (sizeRead h)) _ = _
    rw [hsize]
    exact hx.size
  · have hsame : w'.volume = w.volume := hvolume.resolve_left fun hshort => hshort henough
    rw [hsame]
    exact hx.tracks henough
  · have hnew : ¬ (sizeAnswer (.act .worker a r)).isSome = true := by
      rw [hsize]
      exact Bool.false_ne_true
    have htried : Tried q h → Tried q ((w, .act .worker a r) :: h) := fun hq =>
      .inr ⟨hnew, hq⟩
    rcases hx.rest q hqp (hpresent q hq) with hmem | hq
    · exact (hrest q hmem).imp id .inl
    · exact .inr (htried hq)

/-- A triple of the worker whose assertion survives the other threads' moves. -/
theorem room_triple {P : History V × World V → Prop} {R : Except String a.Answer → History V × World V → Prop}
    (ha : a.CopiesNone) (hP : ∀ {x y}, RoomQuiet x y → P x → P y)
    (hR : ∀ {h w r w'}, P (h, w) → exec sv w a r w' → R r ((w, .act .worker a r) :: h, w')) :
    (roomContract sv free).Triple P a R := by
  have hstep : (roomContract sv free).step =
      (system sv concurrent).next (fun _ _ _ => True) .worker := rfl
  exact Machine.triple hstep (fun _ _ => hP) fun hx _ hy => ⟨keepsRoom_none ha, hR hy hx⟩

/-- What a part of `make_room_for` promises when it returns. -/
def RoomPost {α : Type} (Q : α → History V × World V → Prop) :
    Except String α → History V × World V → Prop := onOk Q fun _ => True

section Loop

variable {required tracked : UInt64} {v : CachedFileRef} {victims : List CachedFileRef}

/-- A victim is tried while too little is free. -/
theorem remove_triple {cache : WString} (hshort : ¬ required ≤ tracked) :
    (roomContract sv free).Triple (Evicting sv free p required (v :: victims) tracked)
      (.removeCachedFile v.relativePath cache)
      (RoomPost fun _ => Evicting sv free p required victims tracked) := by
  refine room_triple trivial evicting_quiet fun {h w r w'} hx hs => ?_
  cases r with
  | error e => trivial
  | ok r =>
    refine evicting_step hx rfl (.inl hshort) (fun q hq => exec_present hs ?_ hq) fun q hq => ?_
    · rintro _ _ _ _ _ ⟨⟩
    · rw [List.map_cons, List.mem_cons] at hq
      rcases hq with rfl | hq
      · exact .inr rfl
      · exact .inl hq

theorem mark_triple {removed : WString} (hshort : ¬ required ≤ tracked) :
    (roomContract sv free).Triple (Evicting sv free p required victims tracked)
      (.update (.markRemoved removed))
      (RoomPost fun _ => Evicting sv free p required victims tracked) := by
  refine room_triple trivial evicting_quiet fun {h w r w'} hx hs => ?_
  cases r with
  | error e => trivial
  | ok r =>
    refine evicting_step hx rfl (.inl hshort) (fun q hq => exec_present hs ?_ hq) fun q hq => .inl hq
    rintro _ _ _ _ _ ⟨⟩

/-- The provider's answer is tracked. -/
theorem ask_triple (hfree : sv.platform.ReportsFree free) :
    (roomContract sv free).Triple (Evicting sv free p required victims tracked)
      (.freeBytes sv.settings.cacheRoot)
      (RoomPost fun (answer : Option UInt64) x =>
        ∃ now, answer = some now ∧ Evicting sv free p required victims now x) := by
  refine room_triple trivial evicting_quiet fun {h w r w'} hx hs => ?_
  obtain ⟨hanswer, rfl⟩ := hs
  obtain rfl := hfree _ _ _ hanswer
  have hnext : Evicting sv free p required victims tracked
      ((w', .act .worker (.freeBytes sv.settings.cacheRoot) (.ok (some (free w'.volume)))) :: h, w') :=
    evicting_step hx rfl (.inr rfl) (fun _ => id) fun q hq => .inl hq
  exact ⟨_, rfl, hnext.size, id, hnext.rest⟩

/-- **The loop of `make_room_for`.** -/
theorem evictVictims_room (hfree : sv.platform.ReportsFree free) :
    ∀ {tracked : UInt64} {x : History V × World V},
      Evicting sv free p required victims tracked x →
      (evictVictims sv p required victims tracked).Safe (roomContract sv free)
        (RoomPost fun _ => RoomMade sv free p) x := by
  have hstable : (roomContract sv free).Stable (RoomMade sv free p) := fun _ _ hr hx =>
    roomMade_quiet hr hx
  induction victims with
  | nil => exact fun hx => Prog.safe_ret hstable (hx.made (.inr rfl))
  | cons v victims ih =>
    intro tracked x hx
    rw [evictVictims]
    by_cases henough : tracked ≥ required
    · rw [if_pos henough]
      exact Prog.safe_ret hstable (hx.made (.inl henough))
    rw [if_neg henough]
    by_cases hp : v.relativePath = p
    · rw [if_pos hp]
      exact ih (hx.skip hp)
    rw [if_neg hp]
    refine Prog.safe_perform (remove_triple henough) hx (fun (result : RemoveResult) z hz => ?_)
      fun _ _ _ _ _ => trivial
    by_cases hclean : result.Clean
    · rw [if_pos hclean]
      refine Prog.safe_perform (mark_triple henough) hz (fun _ z hz => ?_) fun _ _ _ _ _ => trivial
      refine Prog.safe_perform (ask_triple hfree) hz (fun (answer : Option UInt64) z hz => ?_)
        fun _ _ _ _ _ => trivial
      obtain ⟨now, rfl, hz⟩ := hz
      exact ih hz
    · rw [if_neg hclean]
      exact ih hz

end Loop

/-- The size that was read is required, and this is free. -/
structure RoomAsked (sv : Service V) (free : V → UInt64) (required now : UInt64)
    (x : History V × World V) : Prop where
  size : max (sizeRead x.1) sv.settings.minFreeBytes = required
  now : free x.2.volume = now

/-- **`make_room_for` makes room.** -/
theorem makeRoomFor_room (hon : sv.Evicts) (hfree : sv.platform.ReportsFree free)
    {x : History V × World V} : (makeRoomFor sv p).Safe (roomContract sv free)
      (RoomPost fun _ => RoomMade sv free p) x := by
  have hstable : (roomContract sv free).Stable (RoomMade sv free p) := fun _ _ hr hx =>
    roomMade_quiet hr hx
  have hread : (roomContract sv free).Triple (fun _ => True) (.query (.fileRecord p))
      (RoomPost fun record x => sizeRead x.1 = incomingSize record) := by
    refine room_triple trivial (fun _ hx => hx) fun {h w r w'} _ hs => ?_
    cases r with
    | error e => trivial
    | ok record => rfl
  have hask (size : UInt64) : (roomContract sv free).Triple (fun x => sizeRead x.1 = size)
      (.freeBytes sv.settings.cacheRoot) (RoomPost fun (answer : Option UInt64) x =>
        ∃ now, answer = some now ∧ RoomAsked sv free (max size sv.settings.minFreeBytes) now x) := by
    refine room_triple trivial (fun hq hx => hq.size.trans hx) fun {h w r w'} hx hs => ?_
    obtain ⟨hanswer, rfl⟩ := hs
    obtain rfl := hfree _ _ _ hanswer
    exact ⟨_, rfl, congrArg (max · sv.settings.minFreeBytes) hx, rfl⟩
  have hquiet {required now : UInt64} {x y : History V × World V} (hq : RoomQuiet x y)
      (hx : RoomAsked sv free required now x) : RoomAsked sv free required now y :=
    ⟨by rw [hq.size]; exact hx.size, by rw [hq.volume]; exact hx.now⟩
  have hvictims (required now : UInt64) : (roomContract sv free).Triple
      (RoomAsked sv free required now) (.query .cachedFilesByLastAccess)
      (RoomPost fun victims => Evicting sv free p required victims now) := by
    refine room_triple trivial hquiet fun {h w r w'} hx hs => ?_
    cases r with
    | error e => trivial
    | ok victims =>
      obtain ⟨hlist, rfl⟩ := hs
      refine ⟨hx.size, fun henough => hx.now ▸ henough, fun q _ hq => .inl ?_⟩
      obtain ⟨row, hrow, hpresent⟩ := Option.map_eq_some_iff.1 hq
      have hlisted := ((CacheIndex.IsCachedFilesByLastAccess.byLastAccess hlist).present
        ⟨q, row.cachedSizeBytes.getD 0⟩).2 ⟨row, hrow, hpresent, rfl⟩
      exact List.mem_map_of_mem (f := (·.relativePath)) hlisted
  have hswitched : ¬ (sv.freeSpace = false ∨ sv.settings.minFreeBytes = 0) := by
    rw [hon.1]
    exact not_or.2 ⟨Bool.noConfusion, hon.2⟩
  unfold makeRoomFor
  rw [if_neg hswitched]
  refine Prog.safe_perform hread trivial (fun (record : Option FileRecord) z hz => ?_)
    fun _ _ _ _ _ => trivial
  refine Prog.safe_perform (hask _) hz (fun (answer : Option UInt64) z hz => ?_)
    fun _ _ _ _ _ => trivial
  obtain ⟨now, rfl, hz⟩ := hz
  by_cases henough : now ≥ max (incomingSize record) sv.settings.minFreeBytes
  · refine Prog.safe_ite (fun _ => Prog.safe_ret hstable (.inl ?_)) fun hshort => absurd henough hshort
    rw [hz.size, hz.now]
    exact henough
  · refine Prog.safe_ite (fun h => absurd h henough) fun _ => ?_
    exact Prog.safe_perform (hvictims _ _) hz (fun victims z hz => evictVictims_room hfree hz)
      fun _ _ _ _ _ => trivial

/-! ## Batches and passes -/

theorem retryLater_copiesNone (now : ℤ) (job : PendingJob) (message reason : String) :
    (retryLater now job message reason : Task Unit).Only Call.CopiesNone :=
  Prog.Only.bind (Prog.only_perform trivial) fun _ =>
    Prog.Only.bind (Prog.only_perform trivial) fun _ => Prog.only_perform trivial

/-- **The loop of the batch** makes room before every copy. -/
theorem runJobs_room (hon : sv.Evicts) (hfree : sv.platform.ReportsFree free) (now : ℤ)
    (jobs : List PendingJob) : ∀ (completed : ℕ) {x : History V × World V},
      (runJobs sv now jobs completed).Safe (roomContract sv free) Anything x := by
  induction jobs with
  | nil => exact fun _ _ _ _ => trivial
  | cons job jobs ih =>
    intro completed x
    rw [runJobs]
    refine Prog.safe_bind (Prog.safe_mono (fun r z hz => ?_) (makeRoomFor_room hon hfree))
    cases r with
    | error e => exact fun _ _ => trivial
    | ok _ =>
      have hcopy : (roomContract sv free).Triple (RoomMade sv free job.relativePath)
          (.copyAndHash job.relativePath (sv.pathResolver.sourceAbsolute job.relativePath)
            (sv.pathResolver.cacheAbsolute job.relativePath) sv.settings.compareHashBeforeOverwrite)
          Anything := by
        refine ⟨fun _ _ hr hx => roomMade_quiet hr hx, fun hy _ => ⟨?_, trivial⟩⟩
        rintro p source cache m ⟨⟩
        exact hy
      refine Prog.safe_perform hcopy hz (fun (result : CopyResult) z _ => ?_) fun _ _ _ _ _ => trivial
      have hcached : ((update (.markCached job.relativePath result.sourceSizeBytes
          result.cachedSizeBytes result.hashHex result.completedAt)).bind fun _ =>
            (update (.removePendingJob job.relativePath)).bind fun _ =>
              runJobs sv now jobs (completed + 1)).Safe (roomContract sv free) Anything z :=
        plain_then (Prog.only_perform trivial) fun _ _ =>
          plain_then (Prog.only_perform trivial) fun _ _ => ih _
      cases result.action with
      | cancelled => exact fun _ _ => trivial
      | sourceMissing =>
        refine plain_then (Prog.only_perform trivial) fun (removed : RemoveResult) _ => ?_
        refine Prog.safe_ite (fun _ => ?_) fun _ => ?_
        · exact plain_then (Prog.only_perform trivial) fun _ _ => ih _
        · exact plain_then (retryLater_copiesNone ..) fun _ _ => ih _
      | failed => exact plain_then (retryLater_copiesNone ..) fun _ _ => ih _
      | copied => exact hcached
      | skippedSameSize => exact hcached
      | skippedHashMatch => exact hcached

theorem runDueOnce_room (hon : sv.Evicts) (hfree : sv.platform.ReportsFree free) (now : ℤ)
    {x : History V × World V} : (runDueOnce sv now).Safe (roomContract sv free) Anything x :=
  plain_then (Prog.only_perform trivial) fun jobs _ => runJobs_room hon hfree now jobs 0

theorem runEntry_room (hon : sv.Evicts) (hfree : sv.platform.ReportsFree free) (next : HeapEntry)
    {x : History V × World V} : (runEntry sv next).Safe (roomContract sv free) Anything x := by
  refine plain_then (Prog.only_perform trivial) fun (paused : Bool) _ => ?_
  refine Prog.safe_ite (fun _ => plain_safe (Prog.only_perform trivial)) fun _ => ?_
  refine plain_then (Prog.only_perform trivial) fun (job : Option PendingJob) x => ?_
  cases job with
  | none => exact fun _ _ => trivial
  | some job =>
    refine Prog.safe_ite (fun _ _ _ => trivial) fun _ => Prog.safe_tryCatch ?_
    have hbody : (batchBody sv).Safe (roomContract sv free) Anything x := by
      refine plain_then (Prog.only_perform trivial) fun (now : ℤ) _ => ?_
      refine Prog.safe_bind (Prog.safe_mono (fun r z _ => ?_) (runDueOnce_room hon hfree now))
      cases r with
      | ok _ => exact fun _ _ => trivial
      | error e => exact fun _ _ => trivial
    refine Prog.safe_mono (fun r z _ => ?_) hbody
    cases r with
    | ok _ => trivial
    | error e => exact plain_safe (Prog.only_perform trivial)

theorem workerIteration_room (hon : sv.Evicts) (hfree : sv.platform.ReportsFree free)
    {x : History V × World V} : (workerIteration sv).Safe (roomContract sv free) Anything x := by
  refine plain_then (Prog.only_perform trivial) fun (stop : Bool) _ => ?_
  refine Prog.safe_ite (fun _ => plain_safe (Prog.only_perform trivial)) fun _ => ?_
  refine plain_then (Prog.only_perform trivial) fun (paused : Bool) _ => ?_
  refine Prog.safe_ite (fun _ _ _ => trivial) fun _ => ?_
  refine plain_then (Prog.only_perform trivial) fun (next : Option HeapEntry) _ => ?_
  cases next with
  | none => exact fun _ _ => trivial
  | some next => exact runEntry_room hon hfree next

theorem roomQuiet_env (he : tick w w') : RoomQuiet (h, w) ((w, .env) :: h, w') := by
  obtain ⟨clock, -, rfl⟩ := he
  exact roomQuiet_of_step rfl rfl rfl fun _ => id

theorem roomQuiet_others {x y : History V × World V} {r : Except String a.Answer} (ht : t ≠ .worker)
    (ha : a.ByOthers t) (hs : (system sv concurrent).next (fun _ _ _ => True) t x a r y) :
    RoomQuiet x y := by
  obtain ⟨h, w⟩ := x
  obtain ⟨h', w'⟩ := y
  obtain ⟨hx, -, hz⟩ := hs
  cases hz
  exact roomQuiet_of_step (sizeAnswer_ne ht) (triedPath_ne ht) (exec_volume_others hx ha)
    fun q => exec_present_others hx ha

theorem roomBody_safe {o : Operation} {x : History V × World V} (hon : sv.Evicts)
    (hfree : sv.platform.ReportsFree free) (hm : concurrent .worker c o = true) :
    (o.body sv).Safe (roomContract sv free) (fun _ _ => True) x := by
  rcases concurrent_cases hm with ⟨event, ht, -⟩ | ⟨now, -, rfl⟩ | ⟨-, rfl⟩ | ⟨ht, -⟩
  · cases ht
  · refine Prog.safe_bind (Prog.safe_mono (fun r z _ => ?_) (runDueOnce_room hon hfree now))
    cases r with
    | ok _ => exact fun _ _ => trivial
    | error e => exact fun _ _ => trivial
  · exact workerIteration_room hon hfree
  · cases ht

/-- The worker among the other threads. -/
def roomSolo (hon : sv.Evicts) (hfree : sv.platform.ReportsFree free) :
    Solo (system sv concurrent) (fun _ _ _ => True) .worker where
  quiet := RoomQuiet
  keep x a _ _ := KeepsRoom sv free x a
  refl := RoomQuiet.refl
  trans := RoomQuiet.trans
  inv _ := True
  stable _ _ := trivial
  call _ := roomQuiet_of_step rfl rfl rfl fun _ => id
  env he _ := roomQuiet_env he
  allowed := Call.ByOthers
  others := concurrent_others
  quiet_others := roomQuiet_others
  body hm _ _ := roomBody_safe hon hfree hm

/-- **Room is made before every copy.** -/
theorem roomMade_of_run (hon : sv.Evicts) (hfree : sv.platform.ReportsFree free)
    (hrun : Run (system sv concurrent) (.idle w) h c) :
    Meets (fun h w l => ∀ p ∈ copiedPath l, RoomMade sv free p (h, w)) h := by
  refine (roomSolo hon hfree).meets_of_run ?_ ?_ ?_ ?_ trivial hrun (meets_of_forall (fun _ _ _ => trivial) h)
  · intro h w a r y hkeep p hp
    unfold copiedPath at hp
    split at hp
    · rename_i q source cache m r heq
      cases heq
      rw [← Option.mem_some.1 hp]
      exact hkeep q source cache m rfl
    · exact absurd hp (Option.not_mem_none p)
  · intro t h w a r ht ha p hp
    -- no other thread copies
    cases a with
    | copyAndHash q source cache m => cases t <;> exact ha.elim
    | _ => exact absurd hp (Option.not_mem_none p)
  · exact fun p hp => absurd hp (Option.not_mem_none p)
  · exact fun p hp => absurd hp (Option.not_mem_none p)

/-! ## The source -/

theorem max_le_of_le {a b m : UInt64} (ha : a ≤ m) (hb : b ≤ m) : max a b ≤ m := by
  rw [show max a b = if a ≤ b then b else a from rfl]
  split
  · exact hb
  · exact ha

theorem le_max_second (a b : UInt64) : b ≤ max a b := by
  rw [show max a b = if a ≤ b then b else a from rfl]
  split
  · exact UInt64.le_refl b
  · rename_i h
    exact UInt64.le_of_lt (UInt64.not_le.1 h)

/-- The size of a source file, by the time. -/
abbrev SourceSize : Type := WString → ℤ → UInt64

/-- A copy begins with room for the source, or after every other cached file was tried. -/
def Covers (sv : Service V) (free : V → UInt64) (sourceSize : SourceSize) : Condition V :=
  fun h w l => ∀ p ∈ copiedPath l,
    max (sourceSize p w.clock) sv.settings.minFreeBytes ≤ free w.volume ∨
      ∀ q, q ≠ p → w.index.Present q → Tried q h

/-- The access that a step recorded. -/
def accessed (l : Event) : Option AccessEvent :=
  match committed l with
  | some (.recordAccess event _) => some event
  | _ => none

/-- An access with an unknown size never lowers the size that `make_room_for` uses. -/
def NeverLowers (sv : Service V) : Condition V := fun _ w l =>
  ∀ event ∈ accessed l, event.sizeHint = 0 →
    requiredFor sv w.index event.relativePath ≤
      requiredFor sv (w.index.recordAccess event sv.settings.copyDelay) event.relativePath

/-- The size that the index records for the source. -/
def CacheIndex.sourceSize (ix : CacheIndex) (p : WString) : UInt64 :=
  ((ix.files.lookup p).map (·.sourceSizeBytes)).getD 0

/-- The size read for a copy covers the source, or the minimum does; an access with an unknown
size is of a file that no more than the minimum is recorded for. -/
def SizesHold (sv : Service V) (sourceSize : SourceSize) : Condition V := fun h w l =>
  (∀ p ∈ copiedPath l, sourceSize p w.clock ≤ max (sizeRead h) sv.settings.minFreeBytes) ∧
  ∀ event ∈ accessed l, event.sizeHint = 0 →
    w.index.sourceSize event.relativePath ≤ sv.settings.minFreeBytes

/-- The size of an event is the source's, or unknown. -/
def TrueHints (sourceSize : SourceSize) : Condition V := fun _ w l =>
  ∀ event ∈ accessed l,
    event.sizeHint = sourceSize event.relativePath w.clock ∨ event.sizeHint = 0

/-- **Free space covers the file that comes in**, in every run in which the sizes hold. -/
theorem covers_of_run {sourceSize : SourceSize} (hon : sv.Evicts)
    (hfree : sv.platform.ReportsFree free) (hrun : Run (system sv concurrent) (.idle w) h c)
    (hm : Meets (SizesHold sv sourceSize) h) :
    Meets (fun h w l => Covers sv free sourceSize h w l ∧ NeverLowers sv h w l) h := by
  refine ((roomMade_of_run hon hfree hrun).and hm).mono fun {h w l} hx => ⟨?_, ?_⟩
  · intro p hp
    refine (hx.1 p hp).imp (fun hroom => ?_) id
    exact UInt64.le_trans (max_le_of_le (hx.2.1 p hp) (le_max_second _ _)) hroom
  · intro event hevent hunknown
    have hsmall : w.index.sourceSize event.relativePath ≤ sv.settings.minFreeBytes :=
      hx.2.2 event hevent hunknown
    exact UInt64.le_trans (max_le_of_le hsmall (UInt64.le_refl _)) (le_max_second _ _)

/-! ## A run without room -/

instance (sourceSize : SourceSize) (h : History V) (w : World V) (l : Event) :
    Decidable (TrueHints sourceSize h w l) := inferInstanceAs (Decidable (∀ event ∈ accessed l, _))

instance (sv : Service V) (sourceSize : SourceSize) (h : History V) (w : World V) (l : Event) :
    Decidable (SizesHold sv sourceSize h w l) :=
  inferInstanceAs (Decidable ((∀ p ∈ copiedPath l, _) ∧ ∀ event ∈ accessed l, _))

/-- The last step began to copy `p` without room, and the cached file `q` was not tried. -/
def CopiesUncovered (sv : Service V) (free : V → UInt64) (sourceSize : SourceSize)
    (p q : WString) : History V → Prop
  | [] => False
  | (w, l) :: h => copiedPath l = some p ∧
    free w.volume < max (sourceSize p w.clock) sv.settings.minFreeBytes ∧ q ≠ p ∧
    w.index.Present q ∧ ¬ Tried q h

instance CopiesUncovered.decidable (sv : Service V) (free : V → UInt64) (sourceSize : SourceSize)
    (p q : WString) : (h : History V) → Decidable (CopiesUncovered sv free sourceSize p q h)
  | [] => .isFalse id
  | (_, _) :: _ => inferInstanceAs (Decidable (_ ∧ _))

theorem CopiesUncovered.not_meets {sourceSize : SourceSize}
    (hx : CopiesUncovered sv free sourceSize p q h) : ¬ Meets (Covers sv free sourceSize) h := by
  intro hm
  cases h with
  | nil => exact hx
  | cons x h =>
    obtain ⟨w, l⟩ := x
    obtain ⟨hcopy, hshort, hqp, hpresent, htried⟩ := hx
    rcases hm.1 p hcopy with hroom | hall
    · exact UInt64.not_le.2 hshort hroom
    · exact htried (hall q hqp hpresent)

/-- `[97]` has a hundred bytes, every other file five. -/
def hundredBytes : SourceSize := fun p _ => if p = [97] then 100 else 5

theorem disk_reportsFree : Disk.platform.ReportsFree Disk.free := fun _ _ _ h => h

/-- An event of `p` with this size is recorded. -/
def observed (p : WString) (sizeHint : UInt64) : List (Move Party Operation ℤ) :=
  .call .events (.recordEvent { relativePath := p, sizeHint, observedAt := 0 }) :: steps .events 3

/-- With the size of `[97]` known, there is room for it: the other cached file was tried. -/
theorem known_size_covered : ∃ h c,
    Run (system (diskService { minFreeBytes := 10 }) concurrent)
      (.idle { volume := { free := 50 }, clock := 600000000 }) h c ∧
    c.world.index.Present [97] ∧ ¬ c.world.index.Present [98] ∧
    Meets (fun h w l => Covers (diskService { minFreeBytes := 10 }) Disk.free hundredBytes h w l ∧
      NeverLowers (diskService { minFreeBytes := 10 }) h w l) h := by
  obtain ⟨h, c, hrun, hown, hother, hm⟩ := exists_run { minFreeBytes := 10 } concurrent
    { volume := { free := 50 }, clock := 600000000 }
    (observed [98] 5 ++ .call .worker (.runDueOnce 600000000) :: steps .worker 6 ++
      observed [97] 100 ++ .call .worker (.runDueOnce 600000000) :: steps .worker 10)
    (fun x => x.2.world.index.Present [97] ∧ ¬ x.2.world.index.Present [98] ∧
      Meets (SizesHold (diskService { minFreeBytes := 10 }) hundredBytes) x.1) (by decide +kernel)
  exact ⟨h, c, hrun, hown, hother,
    covers_of_run ⟨rfl, by decide⟩ disk_reportsFree hrun hm⟩

/-- **An access with an unknown size** lets the copy of a hundred bytes begin with fifty free,
while another cached file was not tried. -/
theorem unknown_size_uncovered : (diskService { minFreeBytes := 10 }).Evicts ∧
    Disk.platform.ReportsFree Disk.free ∧ ∃ h c,
    Run (system (diskService { minFreeBytes := 10 }) concurrent)
      (.idle { volume := { free := 50 }, clock := 600000000 }) h c ∧
    Meets (TrueHints hundredBytes) h ∧
    ¬ Meets (Covers (diskService { minFreeBytes := 10 }) Disk.free hundredBytes) h := by
  obtain ⟨h, c, hrun, hhints, hx⟩ := exists_run { minFreeBytes := 10 } concurrent
    { volume := { free := 50 }, clock := 600000000 }
    (observed [98] 5 ++ .call .worker (.runDueOnce 600000000) :: steps .worker 6 ++
      observed [97] 100 ++ observed [97] 0 ++
      .call .worker (.runDueOnce 600000000) :: steps .worker 4)
    (fun x => Meets (TrueHints hundredBytes) x.1 ∧
      CopiesUncovered (diskService { minFreeBytes := 10 }) Disk.free hundredBytes [97] [98] x.1)
    (by decide +kernel)
  exact ⟨⟨rfl, by decide⟩, disk_reportsFree, h, c, hrun, hhints, hx.not_meets⟩

end SsdCache
