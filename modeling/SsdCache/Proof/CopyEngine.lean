import SsdCache.Proof.CopyRun

/-!
# What the copy engine leaves behind

* `noTrace_iff`: **a copy that does not succeed leaves no trace** if and only if, from the
  creation of its temp file on, no read or write has failed and no exception was thrown.
* `describes_iff`: **a copied result describes the published file** if and only if the source
  had the size it was said to have; content and digest are right in any case.
-/

namespace SsdCache

open Atomic

variable {sha256 : Bytes → Bytes} {w w' : WinWorld} {tr : List (winCalls.Answered String)}

/-! ## Paths -/

/-- A prefix without a symbol that follows a text is one of the text. -/
theorem isPrefixOf_append_cons {x s t : WString} {u : UInt16} (hu : u ∉ x) :
    x.isPrefixOf (s ++ u :: t) = x.isPrefixOf s := by
  rw [Bool.eq_iff_iff, List.isPrefixOf_iff_prefix, List.isPrefixOf_iff_prefix]
  refine ⟨fun hx => ?_, fun hx => hx.trans (List.prefix_append s _)⟩
  rcases List.prefix_or_prefix_of_prefix hx (List.prefix_append s _) with hs | ⟨y, rfl⟩
  · exact hs
  · rw [List.prefix_append_right_inj] at hx
    cases y with
    | nil => rw [List.append_nil]
    | cons v y =>
      obtain ⟨rfl, -⟩ := List.cons_prefix_cons.1 hx
      exact absurd (List.mem_append_right s List.mem_cons_self) hu

theorem extendedPath_tempSuffix (path : WString) :
    extendedPath (path ++ tempSuffix) = extendedPath path ++ tempSuffix := by
  have hdot : tempSuffix = 0x2E :: wide "ssd-cache.tmp" := by decide
  have hext : (0x2E : UInt16) ∉ extendedPrefix := by decide
  have hunc : (0x2E : UInt16) ∉ [separator, separator] := by decide
  unfold extendedPath
  rw [hdot, isPrefixOf_append_cons hext, isPrefixOf_append_cons hunc]
  split_ifs with h₁ h₂
  · rfl
  · obtain ⟨y, rfl⟩ := List.isPrefixOf_iff_prefix.1 h₂
    rfl
  · rw [List.append_assoc]

/-- The temp file is another file. -/
theorem extendedPath_ne_temp (path : WString) :
    extendedPath path ≠ extendedPath (path ++ tempSuffix) := by
  rw [extendedPath_tempSuffix]
  intro h
  have hlen := congrArg List.length h
  rw [List.length_append, show tempSuffix.length = 14 by decide] at hlen
  omega

/-! ## No trace -/

/-- The calls after the one that has created the temp file. -/
def afterCreation (tr : List (winCalls.Answered String)) : List (winCalls.Answered String) :=
  (tr.dropWhile fun x => !creates x).tail

theorem afterCreation_of_forall (h : ∀ x ∈ tr, creates x = false) : afterCreation tr = [] := by
  have hdrop : tr.dropWhile (fun x => !creates x) = [] := by
    rw [List.dropWhile_eq_nil_iff]
    intro x hx
    rw [h x hx]
    rfl
  unfold afterCreation
  rw [hdrop]
  rfl

theorem afterCreation_append {pre post : List (winCalls.Answered String)}
    {x : winCalls.Answered String} (hpre : ∀ x ∈ pre, creates x = false) (hx : creates x = true) :
    afterCreation (pre ++ x :: post) = post := by
  unfold afterCreation
  rw [List.dropWhile_append_of_pos fun y hy => by rw [hpre y hy]; rfl,
    List.dropWhile_cons_of_neg (by rw [hx]; decide), List.tail_cons]

/-- From the creation of the temp file on, no read or write has failed or come short, and
nothing was thrown. -/
def CopyUndisturbed (tr : List (winCalls.Answered String)) : Prop :=
  ∀ x ∈ afterCreation tr, disturbs x = false

/-- The cached file is as it was, and there is no temp file of this call. -/
structure NoTrace (cacheAbs : WString) (w : WinWorld) (tr : List (winCalls.Answered String))
    (w' : WinWorld) : Prop where
  cache : w'.files (extendedPath cacheAbs) = w.files (extendedPath cacheAbs)
  temp : (∃ x ∈ tr, creates x = true) → w'.files (extendedPath (cacheAbs ++ tempSuffix)) = none

theorem Untouched.noTrace (h : Untouched w tr w') (cacheAbs : WString) :
    NoTrace cacheAbs w tr w' ∧ CopyUndisturbed tr := by
  refine ⟨⟨by rw [h.files], ?_⟩, ?_⟩
  · rintro ⟨x, hx, hc⟩
    rw [h.calls x hx] at hc
    cases hc
  · unfold CopyUndisturbed
    rw [afterCreation_of_forall h.calls]
    exact fun x hx => absurd hx List.not_mem_nil

namespace WinFileCopyEngine

variable {engine : WinFileCopyEngine} {fuel : ℕ} {sourceAbs cacheAbs : WString} {compare : Bool}

/-- **A copy that does not succeed leaves no trace** if and only if it was not disturbed from
the creation of its temp file on: the temp file cannot be deleted while it is open. -/
theorem noTrace_iff {r : Except String (Option CopyResult)}
    (h : (copyAndHash engine fuel sourceAbs cacheAbs compare).Traces (winExec sha256) w tr r w')
    (hr : Unpublished r) : NoTrace cacheAbs w tr w' ↔ CopyUndisturbed tr := by
  rcases copyAndHash_traces h with ⟨huntouched, -⟩ | ⟨size, -, hrun⟩
  · obtain ⟨hno, hun⟩ := huntouched.noTrace cacheAbs
    exact iff_of_true hno hun
  cases hrun with
  | before huntouched =>
    obtain ⟨hno, hun⟩ := huntouched.noTrace cacheAbs
    exact iff_of_true hno hun
  | @after pre post handle htr hpre houtcome =>
    have hafter : afterCreation tr = post := htr ▸ afterCreation_append hpre rfl
    have hcreated : ∃ x ∈ tr, creates x = true := by
      rw [htr]
      exact ⟨_, List.mem_append_right pre List.mem_cons_self, rfl⟩
    cases houtcome with
    | running => exact absurd hr id
    | published haction => exact absurd haction hr
    | dropped _ hquiet hfiles =>
      refine iff_of_true ⟨?_, fun _ => ?_⟩ (by unfold CopyUndisturbed; rw [hafter]; exact hquiet)
      · rw [hfiles, WinWorld.setFile_ne _ _ (extendedPath_ne_temp cacheAbs)]
      · rw [hfiles, WinWorld.setFile_self]
    | left _ hdisturbs hpresent hfiles =>
      obtain ⟨x, hx, hd⟩ := hdisturbs
      refine iff_of_false (fun hno => ?_) fun hun => ?_
      · rw [hno.temp hcreated] at hpresent
        cases hpresent
      · rw [hun x (hafter ▸ hx)] at hd
        cases hd

/-! ## The result of a copy -/

/-- The lower-case hexadecimal digits of bytes. -/
def lowerHex (digest : Bytes) : String :=
  String.ofList (digest.flatMap fun byte =>
    [Nat.digitChar (byte.toNat / 16), Nat.digitChar (byte.toNat % 16)])

theorem hexDigit_eq {n : ℕ} (h : n < 16) : hexDigit n = Nat.digitChar n := by
  interval_cases n <;> rfl

theorem hexText_eq (digest : Bytes) : hexText digest = lowerHex digest := by
  unfold hexText lowerHex
  refine congrArg String.ofList (List.flatMap_congr fun byte _ => ?_)
  have hlt := byte.toNat_lt
  rw [hexDigit_eq (by omega), hexDigit_eq (Nat.mod_lt _ (by omega))]

/-- The bytes that the reads of the copy have given. -/
def bytesRead (tr : List (winCalls.Answered String)) : Bytes := chunks (afterCreation tr)

/-- The result tells the content of the cached file: what was read, its digest and its size. -/
structure Describes (sha256 : Bytes → Bytes) (cacheAbs : WString) (result : CopyResult)
    (tr : List (winCalls.Answered String)) (w' : WinWorld) : Prop where
  content : w'.files (extendedPath cacheAbs) = some (bytesRead tr)
  hash : result.hashHex = lowerHex (sha256 (bytesRead tr))
  size : result.cachedSizeBytes.toNat = (bytesRead tr).length

/-- **A copied result describes the published file** if and only if the source gave as many
bytes as it was said to have before the copy. -/
theorem describes_iff {result : CopyResult}
    (h : (copyAndHash engine fuel sourceAbs cacheAbs compare).Traces (winExec sha256) w tr
      (.ok (some result)) w') (haction : result.action = .copied) :
    Describes sha256 cacheAbs result tr w' ↔
      (queriedSize tr).map UInt64.toNat = some (bytesRead tr).length := by
  have hpublished : ¬ Unpublished (.ok (some result)) := fun hr => hr haction
  rcases copyAndHash_traces h with ⟨-, hr⟩ | ⟨size, hsize, hrun⟩
  · exact absurd hr hpublished
  cases hrun with
  | before _ hr =>
    rcases hr with ⟨hnone, -⟩ | hr
    · cases hnone
    · exact absurd hr hpublished
  | @after pre post handle htr hpre houtcome =>
    have hafter : bytesRead tr = chunks post := by
      unfold bytesRead
      rw [htr, afterCreation_append hpre rfl]
    cases houtcome with
    | dropped hr => exact absurd hr hpublished
    | left hr => exact absurd hr hpublished
    | published _ _ hfiles hhash hcached =>
      have hcontent : w'.files (extendedPath cacheAbs) = some (bytesRead tr) := by
        rw [hfiles, WinWorld.setFile_ne _ _ (extendedPath_ne_temp cacheAbs),
          WinWorld.setFile_self, hafter]
      have hdigest : result.hashHex = lowerHex (sha256 (bytesRead tr)) := by
        rw [hhash, hexText_eq, hafter]
      rw [hsize, Option.map_some, Option.some.injEq, ← hcached]
      exact ⟨fun hd => hd.size, fun hlen => ⟨hcontent, hdigest, hlen⟩⟩

end WinFileCopyEngine

/-! ## Runs -/

/-- A system where whatever can succeed does, but for the reads: `read` tells what one gives
after so many bytes. -/
def scripted (sha256 : Bytes → Bytes) (cancelled : Bool) (read : ℕ → WinResult Bytes)
    (w : WinWorld) : (a : winCalls.Act) → Option (Except String (winCalls.Resp a) × WinWorld)
  | .now => some (.ok (0 : ℤ), w)
  | .getFileAttributesEx path =>
    some (.ok ((w.files path).elim (.error errorFileNotFound) fun c => .ok c.length.toUInt64), w)
  | .formatMessage _ => some (.ok ([] : WString), w)
  | .loadCancelled => some (.ok cancelled, w)
  | .ensureDirectory _ | .allocateBuffer _ => some (.ok (), w)
  | .createHash => some (.ok (), { w with hashed := [] })
  | .openExisting path =>
    if (w.files path).isSome ∧ ¬ w.Locked path ∧ ∀ file ∈ w.handles, file.handle ≠ w.handles.length
    then some (.ok (.ok w.handles.length), w.addHandle ⟨w.handles.length, path, true⟩)
    else some (.ok (.error errorFileNotFound), w)
  | .createExclusive path =>
    if ∀ file ∈ w.handles, file.path ≠ path ∧ file.handle ≠ w.handles.length then
      some (.ok (.ok w.handles.length),
        (w.setFile path (some [])).addHandle ⟨w.handles.length, path, false⟩)
    else some (.ok (.error errorSharingViolation), w)
  | .readFile _ size =>
    match read w.hashed.length with
    | .error error => some (.ok (.error error), w)
    | .ok data => if data.length ≤ size.toNat then some (.ok (.ok data), w) else none
  | .hashData data => some (.ok (), { w with hashed := w.hashed ++ data })
  | .writeFile h data =>
    (w.handles.find? (·.handle = h)).map fun file =>
      (.ok (⟨true, data.length, 0⟩ : WriteOutcome),
        w.setFile file.path ((w.files file.path).map (· ++ data.take data.length)))
  | .finishHash => some (.ok (sha256 w.hashed), w)
  | .closeHandle h => some (.ok (), w.dropHandle h)
  | .moveFileEx source target =>
    if (w.files source).isSome ∧ ¬ w.Locked source ∧ ¬ w.Locked target then
      some (.ok (.ok ()), (w.setFile target (w.files source)).setFile source none)
    else some (.ok (.error errorFileNotFound), w)
  | .deleteFile path =>
    if w.Locked path then some (.ok (.error errorSharingViolation), w)
    else if w.files path = none then some (.ok (.error errorFileNotFound), w)
    else some (.ok (.ok ()), w.setFile path none)

theorem scripted_does (sha256 : Bytes → Bytes) (cancelled : Bool) (read : ℕ → WinResult Bytes)
    {a : winCalls.Act} {r : Except String (winCalls.Resp a)}
    (h : scripted sha256 cancelled read w a = some (r, w')) : winExec sha256 w a r w' := by
  cases a with
  | openExisting path =>
    simp only [scripted] at h
    split_ifs at h with hopen
    · obtain ⟨rfl, rfl⟩ := Prod.mk.inj (Option.some.inj h)
      exact ⟨hopen.1, hopen.2.1, hopen.2.2, rfl⟩
    · obtain ⟨rfl, rfl⟩ := Prod.mk.inj (Option.some.inj h)
      exact rfl
  | createExclusive path =>
    simp only [scripted] at h
    split_ifs at h with hfree
    · obtain ⟨rfl, rfl⟩ := Prod.mk.inj (Option.some.inj h)
      exact ⟨hfree, rfl⟩
    · obtain ⟨rfl, rfl⟩ := Prod.mk.inj (Option.some.inj h)
      exact rfl
  | readFile handle size =>
    simp only [scripted] at h
    split at h
    · obtain ⟨rfl, rfl⟩ := Prod.mk.inj (Option.some.inj h)
      exact rfl
    · split_ifs at h with hlen
      obtain ⟨rfl, rfl⟩ := Prod.mk.inj (Option.some.inj h)
      exact ⟨hlen, rfl⟩
  | writeFile handle data =>
    obtain ⟨file, hfile, heq⟩ := Option.map_eq_some_iff.1 h
    obtain ⟨rfl, rfl⟩ := Prod.mk.inj heq
    exact ⟨file, List.mem_of_find?_eq_some hfile, of_decide_eq_true (List.find?_some hfile :),
      data.length, le_rfl, fun _ => rfl, rfl⟩
  | moveFileEx source target =>
    simp only [scripted] at h
    split_ifs at h with hmove
    · obtain ⟨rfl, rfl⟩ := Prod.mk.inj (Option.some.inj h)
      exact ⟨hmove.1, hmove.2.1, hmove.2.2, rfl⟩
    · obtain ⟨rfl, rfl⟩ := Prod.mk.inj (Option.some.inj h)
      exact rfl
  | deleteFile path =>
    simp only [scripted] at h
    unfold winExec
    split_ifs at h with hlocked hnone
    · obtain ⟨rfl, rfl⟩ := Prod.mk.inj (Option.some.inj h)
      simp only [WinCall.Does, if_pos hlocked, true_and]
    · obtain ⟨rfl, rfl⟩ := Prod.mk.inj (Option.some.inj h)
      simp only [WinCall.Does, if_neg hlocked, if_pos hnone, true_and]
    · obtain ⟨rfl, rfl⟩ := Prod.mk.inj (Option.some.inj h)
      simp only [WinCall.Does, if_neg hlocked, if_neg hnone, true_and]
  | finishHash =>
    obtain ⟨rfl, rfl⟩ := Prod.mk.inj (Option.some.inj h)
    exact ⟨rfl, rfl⟩
  | now | getFileAttributesEx | formatMessage | loadCancelled | ensureDirectory | allocateBuffer
  | createHash | hashData | closeHandle =>
    obtain ⟨rfl, rfl⟩ := Prod.mk.inj (Option.some.inj h)
    exact rfl

instance (r : Except String (Option CopyResult)) : Decidable (WinFileCopyEngine.Unpublished r) :=
  match r with
  | .ok (some result) => inferInstanceAs (Decidable (result.action ≠ .copied))
  | .ok none => .isFalse id
  | .error _ => .isTrue trivial

instance : Decidable (CopyUndisturbed tr) := inferInstanceAs (Decidable (∀ x ∈ _, _))

def sharePath : WString := wide "\\\\nas\\share\\a.txt"

def cachePath : WString := wide "K:\\a.txt"

/-- A share with one file, and an empty cache. -/
def shareWorld (content : Bytes) : WinWorld where
  files path := if path = extendedPath sharePath then some content else none

/-- The file copied into the cache. -/
def shareCopy : WinTask (Option CopyResult) :=
  WinFileCopyEngine.copyAndHash {} 2 sharePath cachePath false

/-- `abc` -/
def abc : Bytes := [0x61, 0x62, 0x63]

/-- SHA-256, as far as `abc` is concerned. -/
def digestOfAbc : Bytes → Bytes := fun _ =>
  [0xBA, 0x78, 0x16, 0xBF, 0x8F, 0x01, 0xCF, 0xEA, 0x41, 0x41, 0x40, 0xDE, 0x5D, 0xAE, 0x22, 0x23,
    0xB0, 0x03, 0x61, 0xA3, 0x96, 0x17, 0x7A, 0x9C, 0xB4, 0x10, 0xFF, 0x61, 0xF2, 0x00, 0x15, 0xAD]

/-- The result of a copy that says `copied`. -/
def copiedResult : Except String (Option CopyResult) → Option CopyResult
  | .ok (some result) => if result.action = .copied then some result else none
  | _ => none

theorem copiedResult_eq_some {r : Except String (Option CopyResult)} {result : CopyResult}
    (h : copiedResult r = some result) : r = .ok (some result) ∧ result.action = .copied := by
  unfold copiedResult at h
  split at h
  · rw [Option.ite_none_right_eq_some, Option.some.injEq] at h
    obtain ⟨haction, rfl⟩ := h
    exact ⟨rfl, haction⟩
  · cases h

/-- A run of the copy, with a property that can be computed. -/
theorem exists_shareCopy (content : Bytes) (cancelled : Bool) (read : ℕ → WinResult Bytes)
    (p : List (winCalls.Answered String) × Except String (Option CopyResult) × WinWorld → Bool)
    (hp : (shareCopy.transcript (scripted digestOfAbc cancelled read) (shareWorld content)).any p
      = true) :
    ∃ tr r w', shareCopy.Traces (winExec digestOfAbc) (shareWorld content) tr r w' ∧
      p (tr, r, w') = true :=
  Prog.exists_traces (fun h => scripted_does digestOfAbc cancelled read h) hp

namespace WinFileCopyEngine

/-- A cancelled copy leaves no trace, though it has created its temp file. -/
theorem noTrace_cancelled :
    ∃ tr r w', shareCopy.Traces (winExec digestOfAbc) (shareWorld abc) tr r w' ∧
      Unpublished r ∧ tr.any creates = true ∧ NoTrace cachePath (shareWorld abc) tr w' := by
  obtain ⟨tr, r, w', hrun, hp⟩ := exists_shareCopy abc true (fun pos => .ok (abc.drop pos))
    (fun y => decide (Unpublished y.2.1) && y.1.any creates && decide (CopyUndisturbed y.1)) (by decide)
  simp only [Bool.and_eq_true, decide_eq_true_eq] at hp
  obtain ⟨⟨hr, hcreated⟩, hun⟩ := hp
  exact ⟨tr, r, w', hrun, hr, hcreated, (noTrace_iff hrun hr).2 hun⟩

/-- The first read fails, and the temp file, still open, cannot be deleted. -/
theorem temp_left_after_failed_read :
    ∃ tr r w', shareCopy.Traces (winExec digestOfAbc) (shareWorld abc) tr r w' ∧
      Unpublished r ∧ ¬ NoTrace cachePath (shareWorld abc) tr w' := by
  obtain ⟨tr, r, w', hrun, hp⟩ := exists_shareCopy abc false (fun _ => .error 64)
    (fun y => decide (Unpublished y.2.1) && y.1.any creates &&
      (y.2.2.files (extendedPath (cachePath ++ tempSuffix))).isSome) (by decide)
  simp only [Bool.and_eq_true, decide_eq_true_eq] at hp
  obtain ⟨⟨hr, hcreated⟩, htemp⟩ := hp
  refine ⟨tr, r, w', hrun, hr, fun hno => ?_⟩
  rw [hno.temp (List.any_eq_true.1 hcreated)] at htemp
  cases htemp

/-- A file that is as large as it was said to be is described. -/
theorem describes_unchanged :
    ∃ tr result w', shareCopy.Traces (winExec digestOfAbc) (shareWorld abc) tr
      (.ok (some result)) w' ∧ result.action = .copied ∧
        Describes digestOfAbc cachePath result tr w' := by
  obtain ⟨tr, r, w', hrun, hp⟩ := exists_shareCopy abc false (fun pos => .ok (abc.drop pos))
    (fun y => (copiedResult y.2.1).isSome &&
      (queriedSize y.1).map UInt64.toNat = some (bytesRead y.1).length) (by decide)
  rw [Bool.and_eq_true, decide_eq_true_eq] at hp
  obtain ⟨hcopied, hsize⟩ := hp
  obtain ⟨result, hresult⟩ := Option.isSome_iff_exists.1 hcopied
  obtain ⟨rfl, haction⟩ := copiedResult_eq_some hresult
  exact ⟨tr, result, w', hrun, haction, (describes_iff hrun haction).2 hsize⟩

/-- A file that has grown from two bytes to three is said to have two. -/
theorem grown_file_not_described :
    ∃ tr result w', shareCopy.Traces (winExec digestOfAbc) (shareWorld (abc.take 2)) tr
      (.ok (some result)) w' ∧ result.action = .copied ∧
        ¬ Describes digestOfAbc cachePath result tr w' := by
  obtain ⟨tr, r, w', hrun, hp⟩ := exists_shareCopy (abc.take 2) false
    (fun pos => .ok (abc.drop pos))
    (fun y => (copiedResult y.2.1).any fun result =>
      result.cachedSizeBytes.toNat ≠ (bytesRead y.1).length) (by decide)
  obtain ⟨result, hresult, hsize⟩ := (Option.any_eq_true _ _).1 hp
  obtain ⟨rfl, haction⟩ := copiedResult_eq_some hresult
  exact ⟨tr, result, w', hrun, haction, fun hd => of_decide_eq_true hsize hd.size⟩

end WinFileCopyEngine

end SsdCache
