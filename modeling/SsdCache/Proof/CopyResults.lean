import SsdCache.Proof.CopyFrame
import SsdCache.Spec.WinPlatform

/-!
# What the answers of the copy engine say

A copied result carries the digest of the file it has published; every other answer leaves the
cache file as it was, and so does an exception. Equal hashes are the digest of the file that is
there.

* `copyAndHash_yields`, `removeCachedFile_yields`: the cache file after a call.
* `hashMatch_digest`: the digest of a file that was found equal.
* `winPlatform_reportsDigests`: the Windows platform reports digests.
-/

namespace SsdCache

open Atomic Prog

variable {sha256 : Bytes → Bytes} {name : WString → WString} {cache temp : WString}
variable {before : Option Bytes} {w w' : WinWorld} {destination : ℕ}
variable {tr : List (winCalls.Answered String)}

/-! ## Digests that an engine reports -/

/-- A result that carries a digest has the one of the file then in the cache; a call that copies
or removes nothing leaves the file, and every call the files it does not touch. -/
structure Platform.ReportsDigests {V : Type} (E : Platform V) (digest : Bytes → String)
    (content : V → WString → Option Bytes) (Touches : WString → WString → Prop) : Prop where
  copy_digest : ∀ {v v' s c m k r}, E.copyAndHash v s c m k (.ok r) v' → r.action.Cached →
    r.action ≠ .skippedSameSize → ∃ data, content v' c = some data ∧ r.hashHex = digest data
  copy_kept : ∀ {v v' s c m k r}, E.copyAndHash v s c m k r v' →
    (∀ result, r = .ok result → ¬ result.action.Cached) → content v' c = content v c
  copy_frame : ∀ {v v' s c m k r x}, E.copyAndHash v s c m k r v' → ¬ Touches c x →
    content v' x = content v x
  remove_kept : ∀ {v v' c r}, E.removeCachedFile v c r v' →
    (∀ result, r = .ok result → ¬ result.Clean) → content v' c = content v c
  remove_frame : ∀ {v v' c r x}, E.removeCachedFile v c r v' → ¬ Touches c x →
    content v' x = content v x

/-! ## Failures -/

theorem yields_failWith {result : CopyResult} {action : CopyAction} (haction : ¬ action.Cached)
    (what : String) (error : UInt32) :
    (WinFileCopyEngine.failWith result action what error).Yields (namedExec name sha256)
      (fun _ => True) (fun v _ => ¬ v.action.Cached) fun _ => True :=
  Yields.bind (I := fun _ _ => True) (fun _ _ r _ _ _ => by cases r <;> trivial) fun _ =>
    yields_ret fun _ => haction

theorem yields_failSource {result : CopyResult} (missing failed : String) (error : UInt32) :
    (WinFileCopyEngine.failSource result missing failed error).Yields (namedExec name sha256)
      (fun _ => True) (fun v _ => ¬ v.action.Cached) fun _ => True := by
  unfold WinFileCopyEngine.failSource
  split_ifs
  · exact yields_failWith (by decide) _ _
  · exact yields_failWith (by decide) _ _

/-- Closing a file changes none. -/
theorem yields_close {P : (WString → Option Bytes) → Prop} (handle : ℕ) :
    (win (.closeHandle handle)).Yields (namedExec name sha256) (fun w => P w.files)
      (fun _ w => P w.files) fun _ => False := by
  refine yields_perform (fun {w _ w'} hw hP => ?_) fun hw _ => hw.elim
  obtain rfl : w' = w.dropHandle handle := hw
  exact hP

/-- How a copy that was not skipped ends: the file is published with its digest, or it is as it
was before. -/
def Replaced (sha256 : Bytes → Bytes) (cache : WString) (before : Option Bytes) :
    Option CopyResult → WinWorld → Prop
  | none, _ => True
  | some result, w =>
    (result.action = .copied ∧
      ∃ data, w.files cache = some data ∧ result.hashHex = hexText (sha256 data)) ∨
    (¬ result.action.Cached ∧ w.files cache = before)

theorem replaced_close (v : Option CopyResult) (handle : ℕ) :
    (win (.closeHandle handle)).Yields (namedExec name sha256) (Replaced sha256 cache before v)
      (fun _ => Replaced sha256 cache before v) fun _ => False := by
  cases v with
  | none => exact yields_perform (fun _ _ => trivial) fun hw _ => hw.elim
  | some result => exact yields_close (P := fun files => (result.action = .copied ∧
      ∃ data, files cache = some data ∧ result.hashHex = hexText (sha256 data)) ∨
        (¬ result.action.Cached ∧ files cache = before)) handle

/-- A failure leaves the file. -/
theorem replaced_of_fails {c : WinTask CopyResult} {h : Option ℕ}
    (hkeeps : Sparing sha256 name cache before h c)
    (hc : c.Yields (namedExec name sha256) (fun _ => True) (fun v _ => ¬ v.action.Cached)
      fun _ => True) :
    (some <$> c).Yields (namedExec name sha256) (Spared cache before h)
      (Replaced sha256 cache before) (Spared cache before h) :=
  Yields.bind (I := fun v w => Spared cache before h w ∧ ¬ v.action.Cached)
    ((hc.keeping hkeeps).mono (fun hw => ⟨hw, trivial⟩) id And.left) fun _ =>
      yields_ret fun hw => .inr ⟨hw.2, hw.1.file⟩

/-- How a call ends: as a copy does, or with the file as it was before. -/
def CopyAnswered (sha256 : Bytes → Bytes) (cache : WString) (before : Option Bytes) :
    Option CopyResult → WinWorld → Prop
  | none, _ => True
  | some result, w =>
    (result.action = .copied ∧
      ∃ data, w.files cache = some data ∧ result.hashHex = hexText (sha256 data)) ∨
    (result.action ≠ .copied ∧ w.files cache = before)

theorem Replaced.answered {v : Option CopyResult} (h : Replaced sha256 cache before v w) :
    CopyAnswered sha256 cache before v w := by
  cases v with
  | none => trivial
  | some result => exact h.imp id fun h => ⟨fun haction => h.1 (.inl haction), h.2⟩

theorem ReadsBack.of_append {path : WString} {content : Option Bytes}
    {pre : List (winCalls.Answered String)} (h : ReadsBack path content (pre ++ tr)) :
    ReadsBack path content tr := fun pre' handle mid size post htr =>
  h (pre ++ pre') handle mid size post (by rw [htr, List.append_assoc])

theorem ReadsBack.tail {path : WString} {content : Option Bytes} {x : winCalls.Answered String}
    (h : ReadsBack path content (x :: tr)) : ReadsBack path content tr :=
  @ReadsBack.of_append tr path content [x] h

/-! ## Copying -/

/-- The temp file holds what has been hashed, and `destination` is open on it alone. -/
structure Fed (temp : WString) (destination : ℕ) (w : WinWorld) : Prop where
  file : w.files temp = some w.hashed
  path : ∀ file ∈ w.handles, file.handle = destination → file.path = temp

theorem Fed.dropHandle (h : Fed temp destination w) (handle : ℕ) :
    Fed temp destination (w.dropHandle handle) :=
  ⟨h.file, fun file hfile => h.path file (List.mem_of_mem_filter hfile)⟩

/-- A whole chunk is hashed and then written. -/
theorem Fed.write (hfed : Fed temp destination w) {chunk : Bytes} {outcome : WriteOutcome}
    (hdoes : namedExec name sha256 { w with hashed := w.hashed ++ chunk }
      (.writeFile destination chunk) (.ok outcome) w')
    (hwhole : outcome.succeeded = true ∧ outcome.written = chunk.length) :
    Fed temp destination w' := by
  obtain ⟨file, hfile, hhandle, n, -, hn, rfl⟩ := hdoes
  rw [hfed.path file hfile hhandle]
  refine ⟨?_, hfed.path⟩
  have hlen : n = chunk.length := (hn hwhole.1).symm.trans hwhole.2
  rw [WinWorld.setFile_self]
  change (w.files temp).map _ = some (w.hashed ++ chunk)
  rw [hfed.file, hlen, List.take_length]
  rfl

/-- How the copy loop is left. -/
def LoopLeft (temp : WString) (destination : ℕ) :
    WinFileCopyEngine.LoopExit → WinWorld → Prop
  | .running, _ => True
  | .endOfFile, w => Fed temp destination w
  | .returned result, _ => ¬ result.action.Cached

namespace WinFileCopyEngine

variable {engine : WinFileCopyEngine} {result : CopyResult} {fuel : ℕ}
variable {tempPath cacheAbs sourceAbs : WString} {source : ℕ}

/-- **The copy loop** feeds the temp file, by induction on its chunks. -/
theorem copyLoop_yields :
    (copyLoop engine source destination tempPath result fuel).Yields (namedExec name sha256)
      (Fed temp destination) (LoopLeft temp destination) fun _ => True := by
  -- an exit that returns something else than a copied result
  have hreturn {P : WinWorld → Prop} {c : WinTask CopyResult}
      (hc : c.Yields (namedExec name sha256) (fun _ => True) (fun v _ => ¬ v.action.Cached)
        fun _ => True) :
      (Prog.bind (win (.deleteFile (extendedPath tempPath))) fun _ => Prog.bind c fun failed =>
        pure (LoopExit.returned failed)).Yields (namedExec name sha256) P
        (LoopLeft temp destination) fun _ => True :=
    Yields.bind (yields_perform (Q := fun _ _ => True) (fun _ _ => trivial) fun _ _ => trivial)
      fun _ => Yields.bind hc fun _ => yields_ret id
  induction fuel with
  | zero => exact yields_ret fun _ => trivial
  | succ fuel ih =>
    refine Yields.bind (I := fun _ => Fed temp destination)
      (yields_perform (fun hw hfed => (show _ = _ from hw) ▸ hfed) fun _ _ => trivial)
      fun (cancelled : Bool) => ?_
    split_ifs
    · refine Yields.bind (yields_perform (Q := fun _ _ => True) (fun _ _ => trivial)
        fun _ _ => trivial) fun _ => ?_
      refine Yields.bind (yields_perform (Q := fun _ _ => True) (fun _ _ => trivial)
        fun _ _ => trivial) fun _ => ?_
      exact yields_ret fun _ => by simp [LoopLeft, CopyAction.Cached]
    · refine Yields.bind (I := fun _ => Fed temp destination)
        (yields_perform (fun {w r w'} hw hfed => ?_) fun _ _ => trivial)
        fun (read : WinResult Bytes) => ?_
      · match r, hw with
        | .ok _, ⟨_, hw⟩ => exact hw ▸ hfed
        | .error _, hw => exact (show w' = w from hw) ▸ hfed
      match read with
      | .error readError => exact hreturn (yields_failSource _ _ readError)
      | .ok [] => exact yields_ret id
      | .ok (byte :: rest) =>
        -- between the two calls the temp file is one chunk behind the hash
        refine Yields.bind (I := fun _ (m : WinWorld) => ∃ w, Fed temp destination w ∧
            m = { w with hashed := w.hashed ++ byte :: rest })
          (yields_perform (fun hw hfed => ⟨_, hfed, hw⟩) fun _ _ => trivial) fun _ => ?_
        refine Yields.bind (I := fun (outcome : WriteOutcome) m => outcome.succeeded = true ∧
            outcome.written = (byte :: rest).length → Fed temp destination m)
          (yields_perform (fun hw hfed hwhole => ?_) fun _ _ => trivial)
          fun (outcome : WriteOutcome) => ?_
        · obtain ⟨w, hfed, rfl⟩ := hfed
          exact hfed.write hw hwhole
        · split_ifs with hshort
          · exact hreturn (yields_failWith (by decide) _ _)
          · refine ih.mono (fun hfed => hfed ?_) id id
            simpa using hshort

/-- How the temp file is moved: the cache has what was hashed, or it is as it was before. -/
def Moved (sha256 : Bytes → Bytes) (cache : WString) (before : Option Bytes) (destination : ℕ)
    (hash : String) : WinResult Unit → WinWorld → Prop
  | .ok _, w => ∃ data, w.files cache = some data ∧ hash = hexText (sha256 data)
  | .error _, w => Spared cache before (some destination) w

/-- **Publishing**: what the temp file holds is now in the cache, and its digest is that of what
was hashed. -/
theorem publish_yields (htemp : name (extendedPath tempPath) ≠ name (extendedPath cacheAbs)) :
    (publish source destination tempPath cacheAbs result).Yields (namedExec name sha256)
      (fun w => Spared (name (extendedPath cacheAbs)) before (some destination) w ∧
        Fed (name (extendedPath tempPath)) destination w)
      (Replaced sha256 (name (extendedPath cacheAbs)) before)
      (Spared (name (extendedPath cacheAbs)) before (some destination)) := by
  -- the digest is in the result, and the files are closed
  let Hashed (hash : String) (w : WinWorld) : Prop :=
    Spared (name (extendedPath cacheAbs)) before (some destination) w ∧
      Fed (name (extendedPath tempPath)) destination w ∧ hash = hexText (sha256 w.hashed)
  have hclose (hash : String) (handle : ℕ) : (win (.closeHandle handle)).Yields
      (namedExec name sha256) (Hashed hash) (fun _ => Hashed hash)
      (Spared (name (extendedPath cacheAbs)) before (some destination)) := by
    refine yields_perform (fun {w _ w'} hw hP => ?_) fun hw _ => hw.elim
    obtain rfl : w' = w.dropHandle handle := hw
    exact ⟨⟨hP.1.file, fun file hfile => hP.1.closed file (List.mem_of_mem_filter hfile)⟩,
      hP.2.1.dropHandle handle, hP.2.2⟩
  refine Yields.bind (I := Hashed) ?_ fun hash => ?_
  · refine Yields.bind (I := fun digest w =>
        Spared (name (extendedPath cacheAbs)) before (some destination) w ∧
          Fed (name (extendedPath tempPath)) destination w ∧ digest = sha256 w.hashed) ?_
      fun digest => yields_ret fun hP => ⟨hP.1, hP.2.1, congrArg hexText hP.2.2⟩
    refine yields_perform (fun {w digest w'} hw hP => ?_) fun hw hP => ?_
    · obtain ⟨hdigest, rfl⟩ : digest = sha256 w.hashed ∧ w' = w := hw
      exact ⟨hP.1, hP.2, hdigest⟩
    · exact (show _ = _ from hw) ▸ hP.1
  refine Yields.bind (I := fun _ => Hashed hash)
    (yields_perform (fun hw hP => (show _ = _ from hw) ▸ hP) fun hw _ => hw.elim)
    fun completedAt => ?_
  refine Yields.bind (hclose hash source) fun _ => Yields.bind (hclose hash destination) fun _ => ?_
  refine Yields.bind (I := Moved sha256 (name (extendedPath cacheAbs)) before destination hash)
    (yields_perform (fun {w moved w'} hw hP => ?_) fun hw _ => hw.elim)
    fun (moved : WinResult Unit) => ?_
  · match moved, hw with
    | .error _, hw => exact (show w' = w from hw) ▸ hP.1
    | .ok _, ⟨_, _, _, hw⟩ =>
      refine ⟨w.hashed, ?_, hP.2.2⟩
      rw [hw, WinWorld.setFile_ne _ _ htemp.symm, WinWorld.setFile_self, hP.2.1.file]
  match moved with
  | .ok () => exact yields_ret fun hdata => .inl ⟨rfl, hdata⟩
  | .error moveError =>
    refine Yields.bind (sparing_win (a := .deleteFile _) htemp).yields fun _ => ?_
    refine Yields.tryCatch (replaced_of_fails (sparing_failWith _ _ _)
      (yields_failWith (by decide) _ _)) fun _ => ?_
    exact yields_ret fun hP => .inr ⟨by simp [CopyAction.Cached], hP.file⟩

/-- **A copy** into a temp file that is still empty. -/
theorem copyInto_yields (htemp : name (extendedPath tempPath) ≠ name (extendedPath cacheAbs)) :
    (copyInto engine fuel source destination tempPath cacheAbs result).Yields
      (namedExec name sha256)
      (fun w => Spared (name (extendedPath cacheAbs)) before (some destination) w ∧
        w.files (name (extendedPath tempPath)) = some [] ∧
        ∀ file ∈ w.handles, file.handle = destination → file.path = name (extendedPath tempPath))
      (Replaced sha256 (name (extendedPath cacheAbs)) before)
      (Spared (name (extendedPath cacheAbs)) before (some destination)) := by
  refine Yields.bind (I := fun _ w =>
      Spared (name (extendedPath cacheAbs)) before (some destination) w ∧
        Fed (name (extendedPath tempPath)) destination w)
    (yields_perform (fun {w _ w'} hw hP => ?_) fun {w _ w'} hw hP => ?_) fun _ => ?_
  · obtain rfl : w' = { w with hashed := [] } := hw
    exact ⟨⟨hP.1.file, hP.1.closed⟩, hP.2.1, hP.2.2⟩
  · exact (show w' = w from hw) ▸ hP.1
  refine Yields.bind (I := fun _ w =>
      Spared (name (extendedPath cacheAbs)) before (some destination) w ∧
        Fed (name (extendedPath tempPath)) destination w)
    (yields_perform (fun hw hP => (show _ = _ from hw) ▸ hP)
      fun hw hP => (show _ = _ from hw) ▸ hP.1) fun _ => ?_
  refine Yields.bind ((copyLoop_yields.keeping (sparing_copyLoop htemp)).mono id id And.left)
    fun exit => ?_
  match exit with
  | .running => exact yields_ret fun _ => trivial
  | .returned _ => exact yields_ret fun hP => .inr ⟨hP.2, hP.1.file⟩
  | .endOfFile => exact publish_yields htemp

theorem copyInto_close_yields
    (htemp : name (extendedPath tempPath) ≠ name (extendedPath cacheAbs)) :
    ((copyInto engine fuel source destination tempPath cacheAbs result).ensuring
      (win (.closeHandle destination))).Yields (namedExec name sha256)
      (fun w => Spared (name (extendedPath cacheAbs)) before (some destination) w ∧
        w.files (name (extendedPath tempPath)) = some [] ∧
        ∀ file ∈ w.handles, file.handle = destination → file.path = name (extendedPath tempPath))
      (Replaced sha256 (name (extendedPath cacheAbs)) before)
      (fun w => w.files (name (extendedPath cacheAbs)) = before) :=
  ((copyInto_yields htemp).mono id id Spared.file).ensuring (replaced_close · destination)
    (yields_close (P := fun files => files (name (extendedPath cacheAbs)) = before) destination)

section Call

variable (htemp : name (extendedPath (cacheAbs ++ tempSuffix)) ≠ name (extendedPath cacheAbs))

include htemp

theorem copyFrom_yields :
    (copyFrom engine fuel source cacheAbs result).Yields (namedExec name sha256)
      (Spared (name (extendedPath cacheAbs)) before none)
      (Replaced sha256 (name (extendedPath cacheAbs)) before)
      (fun w => w.files (name (extendedPath cacheAbs)) = before) := by
  intro w tr r w' h hw
  rcases traces_perform_bind h with ⟨e, -, -, hthrow⟩ | ⟨created, m, rest, -, hm, hrun⟩
  · exact hthrow.elim
  match created, hm, hrun with
  | .error openError, hm, hrun =>
    obtain rfl : m = w := hm
    have hfail : (some <$> failWith result .failed "failed to open cache destination: error "
        openError).Yields (namedExec name sha256) (Spared (name (extendedPath cacheAbs)) before none)
        (Replaced sha256 (name (extendedPath cacheAbs)) before)
        (fun w => w.files (name (extendedPath cacheAbs)) = before) :=
      (replaced_of_fails (sparing_failWith _ _ _) (yields_failWith (by decide) _ _)).mono id id
        Spared.file
    exact hfail hrun hw
  | .ok destination, ⟨hfree, hm⟩, hrun =>
    -- a handle that was open has another number than the new one
    subst hm
    refine copyInto_close_yields htemp hrun ⟨⟨?_, ?_⟩, ?_, ?_⟩
    · exact (w.setFile_ne _ htemp.symm).trans hw.file
    · intro file hfile hhandle
      rcases List.mem_cons.1 hfile with rfl | hfile
      · exact htemp
      · exact absurd (Option.some.inj hhandle).symm (hfree file hfile).2
    · exact w.setFile_self _ _
    · intro file hfile hhandle
      rcases List.mem_cons.1 hfile with rfl | hfile
      · rfl
      · exact absurd hhandle (hfree file hfile).2

/-- **Replacing the cache file.** -/
theorem replaceFile_yields :
    (replaceFile engine fuel sourceAbs cacheAbs result).Yields (namedExec name sha256)
      (Spared (name (extendedPath cacheAbs)) before none)
      (Replaced sha256 (name (extendedPath cacheAbs)) before)
      (fun w => w.files (name (extendedPath cacheAbs)) = before) := by
  refine Yields.tryCatch (C := fun w => w.files (name (extendedPath cacheAbs)) = before) ?_
    fun _ => yields_ret fun hP => .inr ⟨by simp [CopyAction.Cached], hP⟩
  refine Yields.bind (I := fun _ => Spared (name (extendedPath cacheAbs)) before none)
    (yields_perform (fun hw hP => (show _ = _ from hw) ▸ hP)
      fun hw hP => (show _ = _ from hw) ▸ hP.file) fun _ => ?_
  refine Yields.bind ((sparing_win (a := .openExisting _) rfl).yields.mono id id Spared.file)
    fun (opened : WinResult ℕ) => ?_
  match opened with
  | .error openError =>
    exact (replaced_of_fails (sparing_failSource _ _ _) (yields_failSource _ _ _)).mono id id
      Spared.file
  | .ok source =>
    exact (copyFrom_yields htemp).ensuring (replaced_close · source)
      (yields_close (P := fun files => files (name (extendedPath cacheAbs)) = before) source)

theorem compareHashes_yields :
    (compareHashes engine fuel sourceAbs cacheAbs result).Yields (namedExec name sha256)
      (Spared (name (extendedPath cacheAbs)) before none)
      (CopyAnswered sha256 (name (extendedPath cacheAbs)) before)
      (fun w => w.files (name (extendedPath cacheAbs)) = before) := by
  refine Yields.bind ((sparing_hashExistingFile sourceAbs).yields.mono id id Spared.file)
    fun sourceHash => ?_
  match sourceHash with
  | none => exact yields_ret fun _ => trivial
  | some sourceHash =>
    refine Yields.bind ((sparing_hashExistingFile cacheAbs).yields.mono id id Spared.file)
      fun cacheHash => ?_
    match cacheHash with
    | none => exact yields_ret fun _ => trivial
    | some cacheHash =>
      dsimp only
      split_ifs
      · exact yields_ret fun hP => .inr ⟨by simp, hP.file⟩
      · exact (replaceFile_yields htemp).mono id Replaced.answered id

/-- **The cache file after a copy.** -/
theorem copyAndHash_yields {compare : Bool} :
    (copyAndHash engine fuel sourceAbs cacheAbs compare).Yields (namedExec name sha256)
      (Spared (name (extendedPath cacheAbs)) before none)
      (CopyAnswered sha256 (name (extendedPath cacheAbs)) before)
      (fun w => w.files (name (extendedPath cacheAbs)) = before) := by
  refine Yields.bind ((sparing_win (a := .now) trivial).yields.mono id id Spared.file)
    fun started => ?_
  refine Yields.bind
    ((sparing_win (a := .getFileAttributesEx _) trivial).yields.mono id id Spared.file)
    fun (sourceSize : WinResult UInt64) => ?_
  match sourceSize with
  | .error error =>
    exact (replaced_of_fails (sparing_failSource _ _ _) (yields_failSource _ _ _)).mono id
      Replaced.answered Spared.file
  | .ok sourceSize =>
    refine Yields.bind
      ((sparing_win (a := .getFileAttributesEx _) trivial).yields.mono id id Spared.file)
      fun (cacheSize : WinResult UInt64) => ?_
    match cacheSize with
    | .error _ => exact (replaceFile_yields htemp).mono id Replaced.answered id
    | .ok cacheSize =>
      dsimp only
      split_ifs
      · exact yields_ret fun hP => .inr ⟨by simp, hP.file⟩
      · exact compareHashes_yields htemp
      · exact (replaceFile_yields htemp).mono id Replaced.answered id

/-- **The cache file after a removal** that reports an error. -/
theorem removeCachedFile_yields :
    (removeCachedFile cacheAbs).Yields (namedExec name sha256)
      (Spared (name (extendedPath cacheAbs)) before none)
      (fun result w => ¬ result.Clean → w.files (name (extendedPath cacheAbs)) = before)
      (fun w => w.files (name (extendedPath cacheAbs)) = before) := by
  refine Yields.bind ((sparing_win (a := .deleteFile _) htemp).yields.mono id id Spared.file)
    fun _ => ?_
  refine Yields.bind (I := fun deleted w => (∃ e, deleted = .error e) →
      Spared (name (extendedPath cacheAbs)) before none w)
    (yields_perform (fun {w deleted w'} hw hP => ?_) fun hw _ => hw.elim)
    fun (deleted : WinResult Unit) => ?_
  · rintro ⟨e, rfl⟩
    rcases deleteFile_does hw with ⟨-, rfl⟩ | ⟨hok, -⟩
    · exact hP
    · cases hok
  match deleted with
  | .ok () => exact yields_ret fun _ hclean => absurd rfl hclean
  | .error deleteError =>
    dsimp only
    split_ifs
    · exact yields_ret fun _ hclean => absurd rfl hclean
    · refine Yields.bind ((sparing_describeError deleteError).yields.mono
        (fun hP => hP ⟨_, rfl⟩) id Spared.file) fun _ => ?_
      exact yields_ret fun hP _ => hP.file

end Call

/-! ## Hashing -/

/-- The hash of what was read to the end, after what had been hashed before. -/
theorem hashLoop_reads {hash : String}
    (h : (hashLoop engine source fuel).Traces (namedExec name sha256) w tr (.ok (some hash)) w') :
    ∃ mid post, tr = mid ++ ⟨.readFile source engine.readSize, .ok (.ok [])⟩ :: post ∧
      (∀ x ∈ mid, x.1 ≠ .closeHandle source) ∧
      hash = hexText (sha256 (w.hashed ++ (mid.filterMap (chunkFrom source)).flatten)) := by
  induction fuel generalizing w tr with
  | zero =>
    obtain ⟨-, hr, -⟩ := h
    cases hr
  | succ fuel ih =>
    obtain ⟨read, m, rest, rfl, hm, hrun⟩ := traces_perform_ok h
    match read, hm, hrun with
    | .error _, _, hrun =>
      obtain ⟨-, hr, -⟩ := hrun
      cases hr
    | .ok [], ⟨_, hm⟩, hrun =>
      obtain rfl : m = w := hm
      refine ⟨[], rest, rfl, fun x hx => absurd hx List.not_mem_nil, ?_⟩
      rcases traces_bind.1 hrun with ⟨e, he, -⟩ | ⟨v, u, tr₁, tr₂, -, hfinish, -, hv, -⟩
      · cases he
      obtain ⟨digest, n, rest₁, -, hdigest, -, hhex, -⟩ := traces_perform_ok hfinish
      cases hv
      cases hhex
      obtain ⟨hd, -⟩ : digest = sha256 m.hashed ∧ n = m := hdigest
      rw [hd, List.filterMap_nil, List.flatten_nil, List.append_nil]
    | .ok (byte :: bytes), ⟨_, hm⟩, hrun =>
      obtain rfl : m = w := hm
      obtain ⟨_, n, rest₁, rfl, hn, hrun₁⟩ := traces_perform_ok hrun
      obtain rfl : n = { m with hashed := m.hashed ++ byte :: bytes } := hn
      obtain ⟨mid, post, rfl, hmid, rfl⟩ := ih hrun₁
      refine ⟨⟨.readFile source engine.readSize, .ok (.ok (byte :: bytes))⟩ ::
        ⟨.hashData (byte :: bytes), .ok ()⟩ :: mid, post, rfl, ?_, ?_⟩
      · simp only [List.forall_mem_cons]
        exact ⟨nofun, nofun, hmid⟩
      · have hchunk : chunkFrom source ⟨.readFile source engine.readSize,
            .ok (.ok (byte :: bytes))⟩ = some (byte :: bytes) := if_pos rfl
        have hnone : chunkFrom source ⟨.hashData (byte :: bytes), .ok ()⟩ = none := rfl
        rw [List.filterMap_cons_some hchunk, List.filterMap_cons_none hnone, List.flatten_cons,
          List.append_assoc]

/-- **The hash of a file** is the digest of what was read from its opening to its end. -/
theorem hashExistingFile_reads {path : WString} {hash : String}
    (h : (hashExistingFile engine fuel path).Traces (namedExec name sha256) w tr
      (.ok (some hash)) w') :
    ∃ handle mid post, tr = ⟨.openExisting (extendedPath path), .ok (.ok handle)⟩ ::
        (mid ++ ⟨.readFile handle engine.readSize, .ok (.ok [])⟩ :: post) ∧
      (∀ x ∈ mid, x.1 ≠ .closeHandle handle) ∧
      hash = hexText (sha256 (mid.filterMap (chunkFrom handle)).flatten) := by
  obtain ⟨opened, m, rest, rfl, hm, hrun⟩ := traces_perform_ok h
  match opened, hm, hrun with
  | .error _, _, hrun =>
    obtain ⟨-, hr, -⟩ := hrun
    cases hr
  | .ok handle, _, hrun =>
    obtain ⟨r₀, u, tr₁, tr₂, rfl, hbody, ⟨e, he, -⟩ | ⟨rfl, -⟩⟩ := traces_ensuring hrun
    · cases he
    obtain ⟨_, v, rest₁, rfl, hv, hrun₁⟩ := traces_perform_ok hbody
    obtain rfl : v = { m with hashed := [] } := hv
    obtain ⟨_, v, rest₂, rfl, hv, hrun₂⟩ := traces_perform_ok hrun₁
    obtain rfl : v = { m with hashed := [] } := hv
    obtain ⟨mid, post, rfl, hmid, rfl⟩ := hashLoop_reads hrun₂
    refine ⟨handle, ⟨.createHash, .ok ()⟩ :: ⟨.allocateBuffer engine.chunkSize, .ok ()⟩ :: mid,
      post ++ tr₂, ?_, ?_, rfl⟩
    · rw [List.cons_append, List.cons_append, List.append_assoc, List.cons_append,
        List.cons_append, List.cons_append]
      rfl
    · simp only [List.forall_mem_cons]
      exact ⟨nofun, nofun, hmid⟩

section Match

variable (htemp : name (extendedPath (cacheAbs ++ tempSuffix)) ≠ name (extendedPath cacheAbs))

include htemp

/-- Replacing the file has another outcome than a hash match. -/
theorem replaceFile_not_hashMatch {start : CopyResult}
    (h : (replaceFile engine fuel sourceAbs cacheAbs start).Traces (namedExec name sha256) w tr
      (.ok (some result)) w') : result.action ≠ .skippedHashMatch := by
  intro haction
  rcases replaceFile_yields htemp h ⟨rfl, fun _ _ hnone => nomatch hnone⟩ with
    ⟨hcopied, -⟩ | ⟨hkept, -⟩
  · rw [haction] at hcopied
    cases hcopied
  · exact hkept (haction ▸ .inr (.inr rfl))

/-- Equal hashes: the second is the one of the cache file. -/
theorem compareHashes_digest {start : CopyResult} {content : Option Bytes}
    (hchunk : engine.readSize ≠ 0)
    (h : (compareHashes engine fuel sourceAbs cacheAbs start).Traces (namedExec name sha256) w tr
      (.ok (some result)) w') (haction : result.action = .skippedHashMatch)
    (hreads : ReadsBack (extendedPath cacheAbs) content tr) :
    ∃ data, content = some data ∧ result.hashHex = hexText (sha256 data) := by
  rcases traces_bind.1 h with ⟨e, he, -⟩ | ⟨sourceHash, u, tr₁, tr₂, rfl, -, hrun⟩
  · cases he
  cases sourceHash with
  | none =>
    obtain ⟨-, hr, -⟩ := hrun
    cases hr
  | some sourceHash =>
    rcases traces_bind.1 hrun with ⟨e, he, -⟩ | ⟨cacheHash, v, tr₃, tr₄, rfl, hcache, hrun⟩
    · cases he
    cases cacheHash with
    | none =>
      obtain ⟨-, hr, -⟩ := hrun
      cases hr
    | some cacheHash =>
      dsimp only at hrun
      split_ifs at hrun with heq
      · obtain ⟨-, hr, -⟩ := hrun
        cases hr
        obtain ⟨handle, mid, post, rfl, hmid, hhash⟩ := hashExistingFile_reads hcache
        refine ⟨_, hreads.of_append [] handle mid engine.readSize (post ++ tr₄) ?_ hchunk hmid,
          heq.trans hhash⟩
        rw [List.nil_append, List.cons_append, List.append_assoc, List.cons_append]
      · exact absurd haction (replaceFile_not_hashMatch htemp hrun)

/-- **The digest of a file that was found equal** is the one of the file in the cache. -/
theorem hashMatch_digest {compare : Bool} {content : Option Bytes} (hchunk : engine.readSize ≠ 0)
    (h : (copyAndHash engine fuel sourceAbs cacheAbs compare).Traces (namedExec name sha256) w tr
      (.ok (some result)) w') (haction : result.action = .skippedHashMatch)
    (hreads : ReadsBack (extendedPath cacheAbs) content tr) :
    ∃ data, content = some data ∧ result.hashHex = hexText (sha256 data) := by
  obtain ⟨started, m, rest, rfl, -, hrun⟩ := traces_perform_ok h
  obtain ⟨sourceSize, m, rest₁, rfl, -, hrun₁⟩ := traces_perform_ok hrun
  cases sourceSize with
  | error error =>
    rcases traces_bind.1 hrun₁ with ⟨e, he, -⟩ | ⟨v, u, tr₁, tr₂, -, hfail, -, hv, -⟩
    · cases he
    · cases hv
      refine absurd ?_ (yields_failSource _ _ _ hfail trivial)
      exact haction ▸ .inr (.inr rfl)
  | ok sourceSize =>
    obtain ⟨cacheSize, m, rest₂, rfl, -, hrun₂⟩ := traces_perform_ok hrun₁
    cases cacheSize with
    | error _ => exact absurd haction (replaceFile_not_hashMatch htemp hrun₂)
    | ok cacheSize =>
      dsimp only at hrun₂
      split_ifs at hrun₂ with hsame hcompare
      · obtain ⟨-, hr, -⟩ := hrun₂
        cases hr
        cases haction
      · exact compareHashes_digest htemp hchunk hrun₂ haction hreads.tail.tail.tail
      · exact absurd haction (replaceFile_not_hashMatch htemp hrun₂)

end Match

end WinFileCopyEngine

/-! ## The platform -/

/-- The names that a call about the cache file `c` touches: its own, and the one of its temp
file. -/
def WinTouches (fold : CaseFold) (c x : WString) : Prop :=
  lowerRoot fold (extendedPath c) = lowerRoot fold (extendedPath x) ∨
    lowerRoot fold (extendedPath (c ++ tempSuffix)) = lowerRoot fold (extendedPath x)

instance (fold : CaseFold) (c x : WString) : Decidable (WinTouches fold c x) :=
  inferInstanceAs (Decidable (_ ∨ _))

theorem lowerRoot_ne_temp (fold : CaseFold) (path : WString) :
    lowerRoot fold (extendedPath (path ++ tempSuffix)) ≠ lowerRoot fold (extendedPath path) := by
  intro h
  have hlen := congrArg List.length h
  unfold lowerRoot at hlen
  rw [extendedPath_tempSuffix, List.length_map, List.length_map, List.length_append,
    show tempSuffix.length = 14 by decide] at hlen
  omega

theorem spared_start (path : WString) (w : WinWorld) : Spared path (w.files path) none w :=
  ⟨rfl, fun _ _ hnone => nomatch hnone⟩

/-- **The Windows platform reports digests**, if its chunks have a size. -/
theorem winPlatform_reportsDigests (fold : CaseFold) (sha256 : Bytes → Bytes)
    {engine : WinFileCopyEngine} (hchunk : engine.readSize ≠ 0) :
    (winPlatform fold sha256 engine).ReportsDigests
      (fun data => WinFileCopyEngine.lowerHex (sha256 data))
      (fun w path => w.contentAt fold path) (WinTouches fold) where
  copy_digest {v v' s c m k r} hcopy hcached hskipped := by
    obtain ⟨fuel, tr, hrun, hreads⟩ := hcopy
    have hend := WinFileCopyEngine.copyAndHash_yields (lowerRoot_ne_temp fold c) hrun
      (spared_start _ v)
    rcases hend with ⟨-, data, hfile, hhash⟩ | ⟨hcopied, hfile⟩
    · exact ⟨data, hfile, hhash.trans (WinFileCopyEngine.hexText_eq _)⟩
    · have haction : r.action = .skippedHashMatch := by
        rcases hcached with h | h | h
        · exact absurd h hcopied
        · exact absurd h hskipped
        · exact h
      obtain ⟨data, hcontent, hhash⟩ := WinFileCopyEngine.hashMatch_digest
        (lowerRoot_ne_temp fold c) hchunk hrun haction hreads
      exact ⟨data, hfile.trans hcontent, hhash.trans (WinFileCopyEngine.hexText_eq _)⟩
  copy_kept {v v' s c m k r} hcopy hr := by
    obtain ⟨fuel, tr, hrun, -⟩ := hcopy
    have hend := WinFileCopyEngine.copyAndHash_yields (lowerRoot_ne_temp fold c) hrun
      (spared_start _ v)
    cases r with
    | error e => exact hend
    | ok result =>
      rcases hend with ⟨hcopied, -⟩ | ⟨-, hfile⟩
      · exact absurd (.inl hcopied) (hr result rfl)
      · exact hfile
  copy_frame {v v' s c m k r x} hcopy htouches := by
    obtain ⟨fuel, tr, hrun, -⟩ := hcopy
    have hnames := not_or.1 htouches
    exact (WinFileCopyEngine.copyAndHash_keeps hnames.2 hnames.1 hrun (spared_start _ v)).file
  remove_kept {v v' c r} hremove hr := by
    obtain ⟨tr, hrun⟩ := hremove
    have hend := WinFileCopyEngine.removeCachedFile_yields (lowerRoot_ne_temp fold c) hrun
      (spared_start _ v)
    cases r with
    | error e => exact hend
    | ok result => exact hend (hr result rfl)
  remove_frame {v v' c r x} hremove htouches := by
    obtain ⟨tr, hrun⟩ := hremove
    have hnames := not_or.1 htouches
    exact (WinFileCopyEngine.removeCachedFile_keeps hnames.2 hnames.1 hrun (spared_start _ v)).file

end SsdCache
