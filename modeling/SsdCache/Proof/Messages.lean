import SsdCache.Proof.PathRoundTrip
import SsdCache.Spec.ActivitySource

/-!
# Messages of the driver

The driver copies a file name into a field of 1024 units, cut and terminated; the service reads
the field up to its terminator and maps it onto the source.

* `boundedWstring_copy`: the service decodes the first 1023 units of the name.
* `neverCut_iff`: **a name is decoded exactly or dropped if and only if** it fits, or what is
  left of it is not of the source.
* `onlySource_iff`: **only events of the source reach the callback if and only if** a message
  that carries a root is of the source.
-/

namespace SsdCache

open Text

variable {fold : CaseFold} {sourceUnc name : WString} {event : CachemonEvent}

/-! ## Names -/

/-- The buffer holds what fits of the name, and zeros. -/
theorem cachemonCopy_eq {count : ℕ} (hcount : 0 < count) :
    cachemonCopyUnicodeString (List.replicate count 0) (some name) =
      name.take (count - 1) ++ List.replicate (count - (name.take (count - 1)).length) 0 := by
  unfold cachemonCopyUnicodeString
  rw [List.length_replicate, if_neg (by omega)]
  cases name with
  | nil => simp
  | cons u us =>
    have hlen : (if (u :: us).length ≥ count then count - 1 else (u :: us).length) =
        ((u :: us).take (count - 1)).length := by
      rw [List.length_take]
      split_ifs <;> omega
    have htake : (u :: us).take ((u :: us).take (count - 1)).length =
        (u :: us).take (count - 1) := by
      rw [List.length_take, List.take_eq_take_iff]
      omega
    simp only [hlen, htake, List.drop_replicate]

/-- **The service decodes what the driver could copy.** -/
theorem boundedWstring_copy {count : ℕ} (hcount : 0 < count) (hname : 0 ∉ name) :
    boundedWstring (cachemonCopyUnicodeString (List.replicate count 0) (some name)) count =
      name.take (count - 1) := by
  have hpass : ∀ u ∈ name.take (count - 1), decide (u ≠ 0) = true := by
    intro u hu
    refine decide_eq_true fun hzero => hname ?_
    exact hzero ▸ List.mem_of_mem_take hu
  have hlen : (name.take (count - 1)).length ≤ count - 1 := List.length_take_le _ _
  obtain ⟨zeros, hzeros⟩ : ∃ zeros, count - (name.take (count - 1)).length = zeros + 1 :=
    ⟨count - (name.take (count - 1)).length - 1, by omega⟩
  have hwhole : (name.take (count - 1) ++ List.replicate (zeros + 1) (0 : UInt16)).length ≤
      count := by
    rw [List.length_append, List.length_replicate]
    omega
  unfold boundedWstring
  rw [cachemonCopy_eq hcount, hzeros, List.take_of_length_le hwhole, List.replicate_succ,
    List.takeWhile_append_of_pos hpass]
  simp

/-- The path field of a message of the driver. -/
theorem bounded_sentEvent (hname : 0 ∉ name) (kind : UInt32) (requestorPid : UInt64) :
    boundedWstring (sentEvent kind requestorPid name).relativePath cachemonMaxRelativeChars =
      name.take (cachemonMaxRelativeChars - 1) := by
  have hpath : (sentEvent kind requestorPid name).relativePath =
      cachemonCopyUnicodeString (List.replicate cachemonMaxRelativeChars 0) (some name) := by
    simp only [sentEvent]
  rw [hpath, boundedWstring_copy (by decide) hname]

theorem boundedWstring_zeros (count : ℕ) : boundedWstring (List.replicate count 0) count = [] := by
  unfold boundedWstring
  rw [List.take_of_length_le (by rw [List.length_replicate]), List.takeWhile_eq_nil_iff]
  intro hpos
  simp

/-- What the service makes of a message of the driver. -/
theorem readIdentity_sentEvent (hname : 0 ∉ name) (kind : UInt32) (requestorPid : UInt64) :
    readIdentity fold sourceUnc (sentEvent kind requestorPid name) =
      mapObservedSourcePath fold sourceUnc (name.take (cachemonMaxRelativeChars - 1)) := by
  have hroot : boundedWstring (sentEvent kind requestorPid name).sourceRootId
      cachemonMaxRootChars = [] := boundedWstring_zeros cachemonMaxRootChars
  unfold readIdentity eventIdentity
  rw [if_neg (by simp [sentEvent])]
  simp only [hroot, bounded_sentEvent hname, if_true]
  cases mapObservedSourcePath fold sourceUnc (name.take (cachemonMaxRelativeChars - 1)) with
  | none => rfl
  | some identity => rfl

/-- The service decodes the name exactly, or drops the event. -/
def NeverCut (fold : CaseFold) (sourceUnc name : WString) (event : CachemonEvent) : Prop :=
  boundedWstring event.relativePath cachemonMaxRelativeChars = name ∨
    readIdentity fold sourceUnc event = none

/-- **A name is decoded exactly or dropped if and only if** it has at most 1023 units, or its
first 1023 units are no path of the source. -/
theorem neverCut_iff (hname : 0 ∉ name) (kind : UInt32) (requestorPid : UInt64) :
    NeverCut fold sourceUnc name (sentEvent kind requestorPid name) ↔
      name.length ≤ cachemonMaxRelativeChars - 1 ∨
        mapObservedSourcePath fold sourceUnc (name.take (cachemonMaxRelativeChars - 1)) = none := by
  unfold NeverCut
  rw [bounded_sentEvent hname, readIdentity_sentEvent hname, List.take_eq_self_iff]

theorem neverCut_file :
    NeverCut asciiLower (wide "\\\\NasBox\\Share") (wide "\\Device\\Mup\\NasBox\\Share\\a.txt")
      (sentEvent 1 4 (wide "\\Device\\Mup\\NasBox\\Share\\a.txt")) :=
  (neverCut_iff (by decide) 1 4).2 (.inl (by decide))

/-- A file ten folders below `\\NasBox\Share`, with folder names of 199 units. -/
def deepName : WString :=
  wide "\\Device\\Mup\\NasBox\\Share\\" ++
    ((List.replicate 10 (List.replicate 199 0x61 ++ [separator])).flatten ++ wide "b.txt")

/-- The service acts on the first 1023 units of the name. -/
theorem deep_name_cut :
    readIdentity asciiLower (wide "\\\\NasBox\\Share") (sentEvent 1 4 deepName) =
        some ⟨wide "\\\\nasbox\\share", (deepName.drop 25).take 998⟩ ∧
      ¬ NeverCut asciiLower (wide "\\\\NasBox\\Share") deepName (sentEvent 1 4 deepName) := by
  have hname : 0 ∉ deepName := by decide +kernel
  have hmapped : mapObservedSourcePath asciiLower (wide "\\\\NasBox\\Share")
      (deepName.take (cachemonMaxRelativeChars - 1)) =
        some ⟨wide "\\\\nasbox\\share", (deepName.drop 25).take 998⟩ := by
    decide +kernel
  have hread : readIdentity asciiLower (wide "\\\\NasBox\\Share") (sentEvent 1 4 deepName) =
      mapObservedSourcePath asciiLower (wide "\\\\NasBox\\Share")
        (deepName.take (cachemonMaxRelativeChars - 1)) := readIdentity_sentEvent hname 1 4
  rw [hmapped] at hread
  refine ⟨hread, ?_⟩
  rintro (hcut | hdropped)
  · rw [bounded_sentEvent hname] at hcut
    exact absurd (congrArg List.length hcut) (by decide +kernel)
  · rw [hread] at hdropped
    cases hdropped

/-! ## Roots -/

/-- The path that `reader_loop` maps. -/
def observedPath (event : CachemonEvent) : WString :=
  let sourceRootId := boundedWstring event.sourceRootId cachemonMaxRootChars
  let relativePath := boundedWstring event.relativePath cachemonMaxRelativeChars
  if sourceRootId = [] then relativePath else joinRootRelative sourceRootId relativePath

/-- An event that reaches the callback has the root of the source and the path that the mapper
computed. -/
def OnlySource (fold : CaseFold) (sourceUnc : WString) (event : CachemonEvent) : Prop :=
  ∀ identity, readIdentity fold sourceUnc event = some identity →
    (∃ source, parseUncPath fold sourceUnc = some source ∧
      identity.sourceRootId = source.sourceRootId) ∧
    IsCanonical identity.relativePath ∧
    mapObservedSourcePath fold sourceUnc (observedPath event) = some identity

/-- What `reader_loop` hands on of a message of this version. -/
theorem readIdentity_eq (hversion : event.version = cachemonEventVersion) :
    readIdentity fold sourceUnc event =
      match mapObservedSourcePath fold sourceUnc (observedPath event) with
      | some identity => some identity
      | none =>
        if boundedWstring event.sourceRootId cachemonMaxRootChars = [] then none
        else some ⟨boundedWstring event.sourceRootId cachemonMaxRootChars,
          boundedWstring event.relativePath cachemonMaxRelativeChars⟩ := by
  unfold readIdentity
  rw [if_neg (not_not_intro hversion)]
  rfl

/-- **Only events of the source reach the callback if and only if** the message is of another
version, carries no root, or is of the source. -/
theorem onlySource_iff (fold : CaseFold) (sourceUnc : WString) (event : CachemonEvent) :
    OnlySource fold sourceUnc event ↔
      event.version ≠ cachemonEventVersion ∨
      boundedWstring event.sourceRootId cachemonMaxRootChars = [] ∨
      (mapObservedSourcePath fold sourceUnc (observedPath event)).isSome = true := by
  unfold OnlySource
  by_cases hversion : event.version = cachemonEventVersion
  · rw [readIdentity_eq hversion]
    cases hmapped : mapObservedSourcePath fold sourceUnc (observedPath event) with
    | some identity =>
      refine iff_of_true ?_ (.inr (.inr rfl))
      rintro _ ⟨⟩
      obtain ⟨hroot, hcanonical⟩ := mapped_ofSource hmapped
      exact ⟨hroot, hcanonical, rfl⟩
    | none =>
      by_cases hroot : boundedWstring event.sourceRootId cachemonMaxRootChars = []
      · refine iff_of_true ?_ (.inr (.inl hroot))
        simp [hroot]
      · -- the raw fields are handed on
        refine iff_of_false (fun h => ?_) (by simp [hversion, hroot])
        obtain ⟨-, -, hnone⟩ := h _ (if_neg hroot)
        cases hnone
  · refine iff_of_true (fun identity h => ?_) (.inl hversion)
    unfold readIdentity at h
    rw [if_pos hversion] at h
    cases h

/-- A message with the root of another share. -/
def foreignEvent : CachemonEvent where
  sourceRootId := wide "\\\\other\\share"
  relativePath := wide "..\\a.txt"

/-- A message that carries the root of another share reaches the callback as it is. -/
theorem foreign_root_handed_on :
    readIdentity asciiLower (wide "\\\\NasBox\\Share") foreignEvent =
        some ⟨wide "\\\\other\\share", wide "..\\a.txt"⟩ ∧
      ¬ OnlySource asciiLower (wide "\\\\NasBox\\Share") foreignEvent := by
  have hread : readIdentity asciiLower (wide "\\\\NasBox\\Share") foreignEvent =
      some ⟨wide "\\\\other\\share", wide "..\\a.txt"⟩ := by
    decide +kernel
  refine ⟨hread, fun h => ?_⟩
  obtain ⟨⟨source, hsource, hroot⟩, -⟩ := h _ hread
  have hparse : parseUncPath asciiLower (wide "\\\\NasBox\\Share") =
      some ⟨wide "\\\\nasbox\\share", []⟩ := by
    decide +kernel
  rw [hparse] at hsource
  obtain rfl := Option.some.inj hsource
  exact absurd hroot (by decide)

end SsdCache
