import SsdCache.Atomic.Alone
import SsdCache.Proof.CopyEngine
import SsdCache.Proof.PathRoundTrip
import SsdCache.Spec.Config

/-!
# Files that a copy leaves alone

`copy_and_hash` and `remove_cached_file` work on two names: the cache file, and its temp file
beside it. The volume compares names ignoring case.

* `copyAndHash_keeps`, `removeCachedFile_keeps`: no file of another name is touched.
* `keepsOther_iff`: **another cached file is left alone if and only if** its path is not the
  one of the copied file with the suffix of temp files.
-/

namespace SsdCache

open Atomic Prog

variable {sha256 : Bytes → Bytes} {name : WString → WString} {other : WString}
variable {content : Option Bytes} {w w' : WinWorld}

/-! ## Calls -/

/-- The call touches no file found as `other`; of the handles it writes `destination` only. -/
def Spares (name : WString → WString) (other : WString) (destination : Option ℕ) :
    WinCall → Prop
  | .openExisting _ => destination = none
  | .createExclusive path => destination = none ∧ name path ≠ other
  | .writeFile h _ => destination = some h
  | .moveFileEx source target => name source ≠ other ∧ name target ≠ other
  | .deleteFile path => name path ≠ other
  | _ => True

/-- The file found as `other` has this content, and `destination` is not open on it. -/
structure Spared (other : WString) (content : Option Bytes) (destination : Option ℕ)
    (w : WinWorld) : Prop where
  file : w.files other = content
  closed : ∀ file ∈ w.handles, destination = some file.handle → file.path ≠ other

/-- Setting another file. -/
theorem Spared.setFile {destination : Option ℕ} (h : Spared other content destination w)
    {path : WString} (c : Option Bytes) (hne : path ≠ other) :
    Spared other content destination (w.setFile path c) :=
  ⟨(w.setFile_ne c hne.symm).trans h.file, h.closed⟩

theorem Spared.forget {destination : Option ℕ} (h : Spared other content destination w) :
    Spared other content none w :=
  ⟨h.file, fun _ _ hnone => nomatch hnone⟩

/-- A deletion fails and leaves all files, or the file is gone. -/
theorem deleteFile_does {path : WString} {deleted : WinResult Unit}
    (h : namedExec name sha256 w (.deleteFile path) (.ok deleted) w') :
    ((∃ e, deleted = .error e) ∧ w' = w) ∨ (deleted = .ok () ∧ w' = w.setFile (name path) none) := by
  simp only [namedExec, WinCall.Does] at h
  split_ifs at h
  · exact .inl ⟨⟨_, h.1⟩, h.2⟩
  · exact .inl ⟨⟨_, h.1⟩, h.2⟩
  · exact .inr h

/-- **A sparing call leaves the file as it is.** -/
theorem spared_does {destination : Option ℕ} {a : WinCall} {r : Except String a.Answer}
    (ha : Spares name other destination a) (hdoes : namedExec name sha256 w a r w')
    (h : Spared other content destination w) : Spared other content destination w' := by
  cases a with
  | openExisting path =>
    obtain rfl : destination = none := ha
    match r, hdoes with
    | .ok (.ok _), ⟨_, _, _, hw⟩ => exact hw ▸ ⟨h.file, fun _ _ hnone => nomatch hnone⟩
    | .ok (.error _), hw => exact (show w' = w from hw) ▸ h
  | createExclusive path =>
    obtain ⟨rfl, hne⟩ := ha
    match r, hdoes with
    | .ok (.ok _), ⟨_, hw⟩ =>
      exact hw ▸ ⟨(h.setFile _ hne).file, fun _ _ hnone => nomatch hnone⟩
    | .ok (.error _), hw => exact (show w' = w from hw) ▸ h
  | writeFile handle data =>
    obtain rfl : destination = some handle := ha
    match r, hdoes with
    | .ok _, ⟨file, hfile, hhandle, _, _, _, hw⟩ =>
      rw [hw]
      exact h.setFile _ (h.closed file hfile (congrArg some hhandle.symm))
  | moveFileEx source target =>
    match r, hdoes with
    | .ok (.ok _), ⟨_, _, _, hw⟩ =>
      rw [hw]
      exact (h.setFile _ ha.2).setFile _ ha.1
    | .ok (.error _), hw => exact (show w' = w from hw) ▸ h
  | deleteFile path =>
    match r, hdoes with
    | .ok _, hdel =>
      rcases deleteFile_does hdel with ⟨-, rfl⟩ | ⟨-, rfl⟩
      · exact h
      · exact h.setFile _ ha
  | closeHandle handle =>
    match r, hdoes with
    | .ok _, hw =>
      rw [show w' = w.dropHandle handle from hw]
      exact ⟨h.file, fun file hfile => h.closed file (List.mem_of_mem_filter hfile)⟩
  | createHash | hashData =>
    match r, hdoes with
    | .ok _, hw => exact hw ▸ ⟨h.file, h.closed⟩
    | .error _, hw => exact (show w' = w from hw) ▸ h
  | readFile =>
    match r, hdoes with
    | .ok (.ok _), ⟨_, hw⟩ => exact hw ▸ h
    | .ok (.error _), hw => exact (show w' = w from hw) ▸ h
  | finishHash =>
    match r, hdoes with
    | .ok _, ⟨_, hw⟩ => exact hw ▸ h
    | .error _, hw => exact (show w' = w from hw) ▸ h
  | now | getFileAttributesEx | formatMessage | loadCancelled =>
    match r, hdoes with
    | .ok _, hw => exact (show w' = w from hw) ▸ h
  | ensureDirectory | allocateBuffer =>
    match r, hdoes with
    | .ok _, hw => exact (show w' = w from hw) ▸ h
    | .error _, hw => exact (show w' = w from hw) ▸ h

variable (sha256 name other content) in
/-- The task leaves the file as it is, and writes no handle but `destination`. -/
abbrev Sparing {α : Type} (destination : Option ℕ) (c : WinTask α) : Prop :=
  c.Keeps (namedExec name sha256) (Spared other content destination)

theorem sparing_win {destination : Option ℕ} {a : WinCall}
    (ha : Spares name other destination a) : Sparing sha256 name other content destination (win a) :=
  keeps_perform (spared_does ha)

theorem sparing_describeError {destination : Option ℕ} (error : UInt32) :
    Sparing sha256 name other content destination (describeError error) := by
  refine Keeps.bind (sparing_win trivial) fun (text : WString) => ?_
  dsimp only
  split_ifs
  · exact keeps_ret _
  · split
    · exact keeps_ret _
    · exact keeps_throw _

theorem sparing_finishHex {destination : Option ℕ} :
    Sparing sha256 name other content destination finishHex :=
  Keeps.bind (sparing_win trivial) fun _ => keeps_ret _

namespace WinFileCopyEngine

variable {engine : WinFileCopyEngine} {result : CopyResult} {fuel : ℕ}

theorem sparing_failWith {destination : Option ℕ} (action : CopyAction) (what : String)
    (error : UInt32) :
    Sparing sha256 name other content destination (failWith result action what error) :=
  Keeps.bind (sparing_describeError error) fun _ => keeps_ret _

theorem sparing_failSource {destination : Option ℕ} (missing failed : String) (error : UInt32) :
    Sparing sha256 name other content destination (failSource result missing failed error) := by
  unfold failSource
  split_ifs
  · exact sparing_failWith _ _ _
  · exact sparing_failWith _ _ _

/-! ## Hashing -/

theorem sparing_hashLoop (source : ℕ) :
    Sparing sha256 name other content none (hashLoop engine source fuel) := by
  induction fuel with
  | zero => exact keeps_ret _
  | succ fuel ih =>
    refine Keeps.bind (sparing_win trivial) fun (read : WinResult Bytes) => ?_
    match read with
    | .error _ => exact keeps_throw _
    | .ok [] => exact Keeps.bind sparing_finishHex fun _ => keeps_ret _
    | .ok (byte :: rest) => exact Keeps.bind (sparing_win trivial) fun _ => ih

theorem sparing_hashExistingFile (path : WString) :
    Sparing sha256 name other content none (hashExistingFile engine fuel path) := by
  refine Keeps.bind (sparing_win rfl) fun (opened : WinResult ℕ) => ?_
  match opened with
  | .error _ => exact keeps_throw _
  | .ok source =>
    refine Keeps.ensuring ?_ (sparing_win trivial)
    exact Keeps.bind (sparing_win trivial) fun _ =>
      Keeps.bind (sparing_win trivial) fun _ => sparing_hashLoop source

/-! ## Copying -/

section Copy

variable {tempPath cacheAbs sourceAbs : WString} {source destination : ℕ}

theorem sparing_copyLoop (htemp : name (extendedPath tempPath) ≠ other) :
    Sparing sha256 name other content (some destination)
      (copyLoop engine source destination tempPath result fuel) := by
  have hdelete : Sparing sha256 name other content (some destination)
      (win (.deleteFile (extendedPath tempPath))) := sparing_win htemp
  induction fuel with
  | zero => exact keeps_ret _
  | succ fuel ih =>
    refine Keeps.bind (sparing_win trivial) fun (cancelled : Bool) => ?_
    split_ifs
    · refine Keeps.bind (sparing_win trivial) fun _ => ?_
      exact Keeps.bind hdelete fun _ => keeps_ret _
    · refine Keeps.bind (sparing_win trivial) fun (read : WinResult Bytes) => ?_
      match read with
      | .error readError =>
        refine Keeps.bind hdelete fun _ => ?_
        exact Keeps.bind (sparing_failSource _ _ readError) fun _ => keeps_ret _
      | .ok [] => exact keeps_ret _
      | .ok (byte :: rest) =>
        refine Keeps.bind (sparing_win trivial) fun _ => ?_
        refine Keeps.bind (sparing_win rfl) fun (outcome : WriteOutcome) => ?_
        split_ifs
        · refine Keeps.bind hdelete fun _ => ?_
          exact Keeps.bind (sparing_failWith _ _ _) fun _ => keeps_ret _
        · exact ih

theorem sparing_publish (htemp : name (extendedPath tempPath) ≠ other)
    (hcache : name (extendedPath cacheAbs) ≠ other) :
    Sparing sha256 name other content (some destination)
      (publish source destination tempPath cacheAbs result) := by
  refine Keeps.bind sparing_finishHex fun hash => ?_
  refine Keeps.bind (sparing_win trivial) fun completedAt => ?_
  refine Keeps.bind (sparing_win trivial) fun _ => ?_
  refine Keeps.bind (sparing_win trivial) fun _ => ?_
  refine Keeps.bind (sparing_win ⟨htemp, hcache⟩) fun (moved : WinResult Unit) => ?_
  match moved with
  | .ok () => exact keeps_ret _
  | .error moveError =>
    refine Keeps.bind (sparing_win htemp) fun _ => ?_
    refine Keeps.tryCatch ?_ fun _ => keeps_ret _
    exact Keeps.bind (sparing_failWith _ _ _) fun _ => keeps_ret _

theorem sparing_copyInto (htemp : name (extendedPath tempPath) ≠ other)
    (hcache : name (extendedPath cacheAbs) ≠ other) :
    Sparing sha256 name other content (some destination)
      (copyInto engine fuel source destination tempPath cacheAbs result) := by
  refine Keeps.bind (sparing_win trivial) fun _ => ?_
  refine Keeps.bind (sparing_win trivial) fun _ => ?_
  refine Keeps.bind (sparing_copyLoop htemp) fun exit => ?_
  match exit with
  | .running => exact keeps_ret _
  | .returned _ => exact keeps_ret _
  | .endOfFile => exact sparing_publish htemp hcache

/-- The handle of the temp file is not open on the other file. -/
theorem sparing_copyFrom (htemp : name (extendedPath (cacheAbs ++ tempSuffix)) ≠ other)
    (hcache : name (extendedPath cacheAbs) ≠ other) :
    Sparing sha256 name other content none (copyFrom engine fuel source cacheAbs result) := by
  intro w tr r w' h hw
  rcases traces_perform_bind h with ⟨e, -, -, hthrow⟩ | ⟨created, m, rest, -, hm, hrun⟩
  · exact hthrow.elim
  · match created, hm, hrun with
    | .error openError, hm, hrun =>
      have hfail : Sparing sha256 name other content none (some <$> failWith result .failed
          "failed to open cache destination: error " openError) :=
        Keeps.bind (sparing_failWith _ _ _) fun _ => keeps_ret _
      exact hfail hrun (spared_does (a := .createExclusive _) ⟨rfl, htemp⟩ hm hw)
    | .ok destination, ⟨hfree, hm⟩, hrun =>
      -- the new handle is on the temp file, and no older one has its number
      have hopen : Spared other content (some destination) m := by
        rw [hm]
        refine ⟨(w.setFile_ne _ htemp.symm).trans hw.file, fun file hfile hhandle => ?_⟩
        rcases List.mem_cons.1 hfile with rfl | hfile
        · exact htemp
        · exact absurd (Option.some.inj hhandle).symm (hfree file hfile).2
      have hcopy : Sparing sha256 name other content (some destination)
          ((copyInto engine fuel source destination (cacheAbs ++ tempSuffix) cacheAbs
            result).ensuring (win (.closeHandle destination))) :=
        (sparing_copyInto htemp hcache).ensuring (sparing_win trivial)
      exact (hcopy hrun hopen).forget

theorem sparing_replaceFile (htemp : name (extendedPath (cacheAbs ++ tempSuffix)) ≠ other)
    (hcache : name (extendedPath cacheAbs) ≠ other) :
    Sparing sha256 name other content none (replaceFile engine fuel sourceAbs cacheAbs result) := by
  refine Keeps.tryCatch ?_ fun _ => keeps_ret _
  refine Keeps.bind (sparing_win trivial) fun _ => ?_
  refine Keeps.bind (sparing_win rfl) fun (opened : WinResult ℕ) => ?_
  match opened with
  | .error openError => exact Keeps.bind (sparing_failSource _ _ openError) fun _ => keeps_ret _
  | .ok source => exact (sparing_copyFrom htemp hcache).ensuring (sparing_win trivial)

theorem sparing_compareHashes (htemp : name (extendedPath (cacheAbs ++ tempSuffix)) ≠ other)
    (hcache : name (extendedPath cacheAbs) ≠ other) :
    Sparing sha256 name other content none
      (compareHashes engine fuel sourceAbs cacheAbs result) := by
  refine Keeps.bind (sparing_hashExistingFile sourceAbs) fun sourceHash => ?_
  match sourceHash with
  | none => exact keeps_ret _
  | some sourceHash =>
    refine Keeps.bind (sparing_hashExistingFile cacheAbs) fun cacheHash => ?_
    match cacheHash with
    | none => exact keeps_ret _
    | some cacheHash =>
      dsimp only
      split_ifs
      · exact keeps_ret _
      · exact sparing_replaceFile htemp hcache

/-- **A copy leaves every other file alone.** -/
theorem copyAndHash_keeps {compare : Bool}
    (htemp : name (extendedPath (cacheAbs ++ tempSuffix)) ≠ other)
    (hcache : name (extendedPath cacheAbs) ≠ other) :
    Sparing sha256 name other content none
      (copyAndHash engine fuel sourceAbs cacheAbs compare) := by
  refine Keeps.bind (sparing_win trivial) fun started => ?_
  refine Keeps.bind (sparing_win trivial) fun (sourceSize : WinResult UInt64) => ?_
  match sourceSize with
  | .error error => exact Keeps.bind (sparing_failSource _ _ error) fun _ => keeps_ret _
  | .ok sourceSize =>
    refine Keeps.bind (sparing_win trivial) fun (cacheSize : WinResult UInt64) => ?_
    match cacheSize with
    | .error _ => exact sparing_replaceFile htemp hcache
    | .ok cacheSize =>
      dsimp only
      split_ifs
      · exact keeps_ret _
      · exact sparing_compareHashes htemp hcache
      · exact sparing_replaceFile htemp hcache

/-- **A removal leaves every other file alone.** -/
theorem removeCachedFile_keeps
    (htemp : name (extendedPath (cacheAbs ++ tempSuffix)) ≠ other)
    (hcache : name (extendedPath cacheAbs) ≠ other) :
    Sparing sha256 name other content none (removeCachedFile cacheAbs) := by
  refine Keeps.bind (sparing_win htemp) fun _ => ?_
  refine Keeps.bind (sparing_win hcache) fun (deleted : WinResult Unit) => ?_
  match deleted with
  | .ok () => exact keeps_ret _
  | .error deleteError =>
    dsimp only
    split_ifs
    · exact keeps_ret _
    · exact Keeps.bind (sparing_describeError deleteError) fun _ => keeps_ret _

end Copy

end WinFileCopyEngine

/-! ## Names in the cache -/

variable {fold : CaseFold} {config : AppConfig} {p q : WString}

/-- The volume ignores case. -/
def caselessExec (fold : CaseFold) (sha256 : Bytes → Bytes) (w : WinWorld) (a : winCalls.Act)
    (r : Except String (winCalls.Resp a)) (w' : WinWorld) : Prop :=
  namedExec (lowerRoot fold) sha256 w a r w'

/-- The name under which the volume finds the cache file of `p`. -/
def cacheName (fold : CaseFold) (config : AppConfig) (p : WString) : WString :=
  lowerRoot fold (extendedPath ((rootedPathResolver config).cacheAbsolute p))

/-- The name of its temp file. -/
def tempName (fold : CaseFold) (config : AppConfig) (p : WString) : WString :=
  lowerRoot fold (extendedPath ((rootedPathResolver config).cacheAbsolute p ++ tempSuffix))

theorem cacheName_ne_tempName (fold : CaseFold) (config : AppConfig) (p : WString) :
    cacheName fold config p ≠ tempName fold config p := by
  intro h
  have hlen := congrArg List.length h
  unfold cacheName tempName lowerRoot at hlen
  rw [extendedPath_tempSuffix, List.length_map, List.length_map, List.length_append,
    show tempSuffix.length = 14 by decide] at hlen
  omega

/-- A path in the cache is a drive and what is below it. -/
theorem cacheAbsolute_eq (config : AppConfig) :
    ∃ letter : UInt16, ∀ {p}, IsCanonical p → (rootedPathResolver config).cacheAbsolute p =
      letter :: 0x3A :: if p = [] then [] else separator :: p := by
  refine ⟨if config.cacheLetter = slash then separator else config.cacheLetter, fun {p} hp => ?_⟩
  -- the root loses its separator, and joining puts one back
  have hroot : (normalizeSeparators (cacheRootFromConfig config)).rdropWhile (· = separator) =
      [if config.cacheLetter = slash then separator else config.cacheLetter, 0x3A] := by
    change List.rdropWhile _ ([_, 0x3A] ++ [separator]) = _
    rw [List.rdropWhile_concat_pos _ _ _ (by decide)]
    exact List.rdropWhile_concat_neg _ [_] _ (by decide)
  simp only [rootedPathResolver, joinRootRelative, hroot, hp.trim]
  by_cases hpn : p = []
  · rw [if_pos hpn, if_pos hpn]
  · rw [if_neg hpn, if_neg hpn, List.cons_append, List.cons_append, List.nil_append]

theorem extendedPath_drive (letter : UInt16) (path : WString) :
    extendedPath (letter :: 0x3A :: path) = extendedPrefix ++ letter :: 0x3A :: path := by
  have hext : extendedPrefix.isPrefixOf (letter :: 0x3A :: path) = false :=
    Bool.and_false (separator == letter)
  have hunc : [separator, separator].isPrefixOf (letter :: 0x3A :: path) = false :=
    Bool.and_false (separator == letter)
  unfold extendedPath
  rw [hext, hunc]
  rfl

theorem cacheName_eq_iff (hp : IsCanonical p) (hq : IsCanonical q) :
    cacheName fold config p = cacheName fold config q ↔ SameLetters fold p q := by
  obtain ⟨letter, hletter⟩ := cacheAbsolute_eq config
  have hcache : SameLetters fold ((rootedPathResolver config).cacheAbsolute p)
      ((rootedPathResolver config).cacheAbsolute q) ↔ SameLetters fold p q :=
    sameLetters_cacheAbsolute hp hq
  rw [← hcache]
  unfold cacheName lowerRoot
  rw [hletter hp, hletter hq, extendedPath_drive, extendedPath_drive, List.map_append,
    List.map_append, List.append_right_inj]
  rfl

/-- **A cache file is a temp file** if its path is one with the suffix. -/
theorem tempName_eq_iff (hp : IsCanonical p) (hq : IsCanonical q) :
    tempName fold config p = cacheName fold config q ↔
      p ≠ [] ∧ SameLetters fold q (p ++ tempSuffix) := by
  obtain ⟨letter, hletter⟩ := cacheAbsolute_eq config
  have hdot : tempSuffix = 0x2E :: wide "ssd-cache.tmp" := by decide
  have hseparator : fold.towlower 0x2E ≠ fold.towlower separator := by
    rw [(fold.towlower_separator separator).2 rfl]
    intro h
    exact absurd ((fold.towlower_separator _).1 h) (by decide)
  unfold tempName cacheName lowerRoot SameLetters
  rw [hletter hp, hletter hq, List.cons_append, List.cons_append, extendedPath_drive,
    extendedPath_drive, List.map_append, List.map_append, List.append_right_inj, List.map_cons,
    List.map_cons, List.map_cons, List.map_cons, List.cons_inj_right, List.cons_inj_right]
  by_cases hpn : p = []
  · -- the temp file of the root is not below the root
    by_cases hqn : q = []
    · simp [hpn, hqn, hdot]
    · simp [hpn, hqn, hdot, hseparator]
  · by_cases hqn : q = []
    · simp [hpn, hqn]
    · simp [hpn, hqn, eq_comm]

/-! ## Copying and removing one file -/

/-- A copy to the cache file of `p` leaves the one of `q` as it is, however it ends. -/
def CopyKeeps (fold : CaseFold) (config : AppConfig) (p q : WString) : Prop :=
  ∀ (sha256 : Bytes → Bytes) (engine : WinFileCopyEngine) (fuel : ℕ) (sourceAbs : WString)
    (compare : Bool) (w : WinWorld) (tr : List (winCalls.Answered String))
    (r : Except String (Option CopyResult)) (w' : WinWorld),
    (engine.copyAndHash fuel sourceAbs ((rootedPathResolver config).cacheAbsolute p)
      compare).Traces (caselessExec fold sha256) w tr r w' →
    w'.files (cacheName fold config q) = w.files (cacheName fold config q)

/-- A removal of the cache file of `p` leaves the one of `q` as it is, however it ends. -/
def RemoveKeeps (fold : CaseFold) (config : AppConfig) (p q : WString) : Prop :=
  ∀ (sha256 : Bytes → Bytes) (w : WinWorld) (tr : List (winCalls.Answered String))
    (r : Except String RemoveResult) (w' : WinWorld),
    (WinFileCopyEngine.removeCachedFile
      ((rootedPathResolver config).cacheAbsolute p)).Traces (caselessExec fold sha256) w tr r w' →
    w'.files (cacheName fold config q) = w.files (cacheName fold config q)

/-- A volume where every file is there, with one byte. -/
def fullVolume : WinWorld where
  files _ := some [0]

/-- A removal deletes the temp file. -/
theorem temp_removed (fold : CaseFold) (config : AppConfig) (p : WString) :
    ∃ tr r w', (WinFileCopyEngine.removeCachedFile
      ((rootedPathResolver config).cacheAbsolute p)).Traces (caselessExec fold id) fullVolume tr r
        w' ∧ w'.files (tempName fold config p) = none := by
  have hdeletes (w : WinWorld) (hw : w.handles = []) (path : WString) (c : Bytes)
      (hfile : w.files (lowerRoot fold path) = some c) :
      caselessExec fold id w (.deleteFile path) (.ok (.ok ()))
        (w.setFile (lowerRoot fold path) none) := by
    have hopen : ¬ w.Locked (lowerRoot fold path) := by
      rintro ⟨file, hmem, -⟩
      rw [hw] at hmem
      cases hmem
    have hpresent : w.files (lowerRoot fold path) ≠ none := by
      rw [hfile]
      exact Option.some_ne_none c
    simp only [caselessExec, namedExec, WinCall.Does, if_neg hopen, if_neg hpresent, and_self]
  have hne := cacheName_ne_tempName fold config p
  have hcached : (fullVolume.setFile (tempName fold config p) none).files
      (cacheName fold config p) = some [0] := WinWorld.setFile_ne _ _ hne
  refine ⟨_, _, _, ⟨.ok (.ok ()), _, _, rfl, hdeletes fullVolume rfl _ [0] rfl,
    .ok (.ok ()), _, _, rfl, hdeletes _ rfl _ [0] hcached, rfl, rfl, rfl⟩, ?_⟩
  exact (WinWorld.setFile_ne _ _ hne.symm).trans (WinWorld.setFile_self _ _ _)

/-- A copy that cannot hash leaves its temp file empty. -/
theorem temp_emptied (fold : CaseFold) (config : AppConfig) (p : WString) :
    ∃ tr r w', (WinFileCopyEngine.copyAndHash {} 0 ((rootedPathResolver config).cacheAbsolute p)
      ((rootedPathResolver config).cacheAbsolute p) false).Traces (caselessExec fold id) fullVolume
        tr r w' ∧ w'.files (tempName fold config p) = some [] := by
  have hne := cacheName_ne_tempName fold config p
  have hopened : caselessExec fold id fullVolume
      (.openExisting (extendedPath ((rootedPathResolver config).cacheAbsolute p))) (.ok (.ok 0))
      (fullVolume.addHandle ⟨0, cacheName fold config p, true⟩) := by
    refine ⟨rfl, ?_, ?_, rfl⟩
    · rintro ⟨file, hfile, -⟩
      cases hfile
    · intro file hfile
      cases hfile
  have hcreated : caselessExec fold id (fullVolume.addHandle ⟨0, cacheName fold config p, true⟩)
      (.createExclusive
        (extendedPath ((rootedPathResolver config).cacheAbsolute p ++ tempSuffix))) (.ok (.ok 1))
      (((fullVolume.addHandle ⟨0, cacheName fold config p, true⟩).setFile
        (tempName fold config p) (some [])).addHandle ⟨1, tempName fold config p, false⟩) := by
    refine ⟨fun file hfile => ?_, rfl⟩
    obtain rfl := List.mem_singleton.1 hfile
    exact ⟨hne, Nat.zero_ne_one⟩
  refine ⟨_, _, _, ⟨.ok (0 : ℤ), _, _, rfl, rfl, .ok (.ok 1), _, _, rfl, rfl,
    .ok (.error errorFileNotFound), _, _, rfl, rfl, .ok (), _, _, rfl, rfl,
    .ok (.ok 0), _, _, rfl, hopened, .ok (.ok 1), _, _, rfl, hcreated,
    -- the hash cannot be created, and both files are closed
    .error "no hash", _, _, rfl, rfl, .ok (), _, _, rfl, rfl, .ok (), _, _, rfl, rfl,
    rfl, rfl, rfl⟩, ?_⟩
  exact WinWorld.setFile_self _ _ _

theorem CopyKeeps.ne_temp (h : CopyKeeps fold config p q) :
    tempName fold config p ≠ cacheName fold config q := by
  intro heq
  obtain ⟨tr, r, w', hrun, hempty⟩ := temp_emptied fold config p
  have hkept := h _ _ _ _ _ _ _ _ _ hrun
  rw [← heq, hempty] at hkept
  exact absurd hkept (by simp [fullVolume])

theorem RemoveKeeps.ne_temp (h : RemoveKeeps fold config p q) :
    tempName fold config p ≠ cacheName fold config q := by
  intro heq
  obtain ⟨tr, r, w', hrun, hnone⟩ := temp_removed fold config p
  have hkept := h _ _ _ _ _ hrun
  rw [← heq, hnone] at hkept
  exact absurd hkept (by simp [fullVolume])

/-- **Another cached file is left alone if and only if** its path is not the one of the file
copied or removed with the suffix of temp files. -/
theorem keepsOther_iff (fold : CaseFold) (config : AppConfig) {p q : WString}
    (hp : IsCanonical p) (hq : IsCanonical q) (hother : ¬ SameLetters fold p q) :
    (CopyKeeps fold config p q ↔ p = [] ∨ ¬ SameLetters fold q (p ++ tempSuffix)) ∧
      (RemoveKeeps fold config p q ↔ p = [] ∨ ¬ SameLetters fold q (p ++ tempSuffix)) := by
  have hcache : cacheName fold config p ≠ cacheName fold config q := by
    rwa [Ne, cacheName_eq_iff hp hq]
  have htemp : tempName fold config p ≠ cacheName fold config q ↔
      p = [] ∨ ¬ SameLetters fold q (p ++ tempSuffix) := by
    rw [Ne, tempName_eq_iff hp hq, not_and_or, not_not]
  rw [← htemp]
  refine ⟨⟨CopyKeeps.ne_temp, ?_⟩, ⟨RemoveKeeps.ne_temp, ?_⟩⟩
  · intro hne sha256 engine fuel sourceAbs compare w tr r w' hrun
    have hstart : Spared (cacheName fold config q) (w.files (cacheName fold config q)) none w :=
      ⟨rfl, fun _ _ hnone => nomatch hnone⟩
    exact (WinFileCopyEngine.copyAndHash_keeps hne hcache hrun hstart).file
  · intro hne sha256 w tr r w' hrun
    have hstart : Spared (cacheName fold config q) (w.files (cacheName fold config q)) none w :=
      ⟨rfl, fun _ _ hnone => nomatch hnone⟩
    exact (WinFileCopyEngine.removeCachedFile_keeps hne hcache hrun hstart).file

/-- `a.txt` -/
def plainName : WString := wide "a.txt"

theorem isCanonical_field {p : WString} (hp : Text.IsField separator p) (hslash : slash ∉ p) :
    IsCanonical p := by
  refine ⟨[p], fun c hc => ?_, by simp [Text.joined]⟩
  obtain rfl := List.mem_singleton.1 hc
  exact ⟨hp, hslash⟩

theorem plainName_canonical : IsCanonical plainName :=
  isCanonical_field ⟨by decide, by decide⟩ (by decide)

theorem tempNamed_canonical : IsCanonical (plainName ++ tempSuffix) :=
  isCanonical_field ⟨by decide, by decide⟩ (by decide)

/-- The file `b.txt`. -/
theorem keepsOther_plain : CopyKeeps asciiLower {} plainName (wide "b.txt") ∧
    RemoveKeeps asciiLower {} plainName (wide "b.txt") := by
  have hb : IsCanonical (wide "b.txt") := isCanonical_field ⟨by decide, by decide⟩ (by decide)
  obtain ⟨hcopy, hremove⟩ := keepsOther_iff asciiLower {} plainName_canonical hb (by decide)
  exact ⟨hcopy.2 (.inr (by decide)), hremove.2 (.inr (by decide))⟩

/-- The share has a file named like the temp file of another: it is lost. -/
theorem temp_named_file_lost :
    IsCanonical plainName ∧ IsCanonical (plainName ++ tempSuffix) ∧
      ¬ SameLetters asciiLower plainName (plainName ++ tempSuffix) ∧
      ¬ CopyKeeps asciiLower {} plainName (plainName ++ tempSuffix) ∧
      ¬ RemoveKeeps asciiLower {} plainName (plainName ++ tempSuffix) := by
  have htemp : tempName asciiLower {} plainName =
      cacheName asciiLower {} (plainName ++ tempSuffix) :=
    (tempName_eq_iff plainName_canonical tempNamed_canonical).2 ⟨by decide, rfl⟩
  exact ⟨plainName_canonical, tempNamed_canonical, by decide, fun h => h.ne_temp htemp,
    fun h => h.ne_temp htemp⟩

end SsdCache
