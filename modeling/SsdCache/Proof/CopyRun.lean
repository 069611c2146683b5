import SsdCache.Atomic.Trace
import SsdCache.Spec.WinFileCopy

/-!
# What a run of the copy engine does

The calls of `copy_and_hash` up to the creation of the temp file touch no file
(`Untouched`). From there on the run ends in one of the ways of `Outcome`: the temp file is
published, dropped, or left. It is left exactly if a call has disturbed the copy
(`disturbs`): the other exits close the file before they delete or rename it.

* `copyLoop_traces`: how the copy loop ends, by induction on its chunks.
* `copyInto_traces`: how the copy ends.
* `copyAndHash_traces`: the calls before the creation and the copy after it.
-/

namespace SsdCache

open Atomic

variable {sha256 : Bytes → Bytes} {w m w' : WinWorld} {tr : List (winCalls.Answered String)}

/-! ## Files -/

@[simp] theorem WinWorld.setFile_self (w : WinWorld) (p : WString) (c : Option Bytes) :
    (w.setFile p c).files p = c :=
  if_pos rfl

theorem WinWorld.setFile_ne (w : WinWorld) {p q : WString} (c : Option Bytes) (h : q ≠ p) :
    (w.setFile p c).files q = w.files q :=
  if_neg h

theorem WinWorld.setFile_eq_self {p : WString} {c : Option Bytes} (h : c = w.files p) :
    (w.setFile p c).files = w.files := by
  funext q
  by_cases hq : q = p
  · rw [hq, WinWorld.setFile_self, h]
  · exact WinWorld.setFile_ne _ _ hq

/-- Files that agree but at one path agree once that path is set. -/
theorem WinWorld.setFile_congr {p : WString} {c : Option Bytes}
    (h : ∀ q, q ≠ p → m.files q = w.files q) : (m.setFile p c).files = (w.setFile p c).files := by
  funext q
  by_cases hq : q = p
  · rw [hq, WinWorld.setFile_self, WinWorld.setFile_self]
  · rw [WinWorld.setFile_ne _ _ hq, WinWorld.setFile_ne _ _ hq, h q hq]

/-! ## Calls -/

/-- The call has created a file, for this call to copy into. -/
def creates : winCalls.Answered String → Bool
  | ⟨.createExclusive _, .ok (.ok _)⟩ => true
  | _ => false

/-- The call fails while a copy depends on it, or throws. -/
def disturbs : winCalls.Answered String → Bool
  | ⟨.readFile _ _, .ok (.error _)⟩ => true
  | ⟨.writeFile _ data, .ok outcome⟩ => !outcome.succeeded || outcome.written ≠ data.length
  | ⟨_, .error _⟩ => true
  | _ => false

/-- The data that a read has given. -/
def chunkOf : winCalls.Answered String → Option Bytes
  | ⟨.readFile _ _, .ok (.ok data)⟩ => some data
  | _ => none

/-- What the reads of a trace have given. -/
def chunks (tr : List (winCalls.Answered String)) : Bytes := (tr.filterMap chunkOf).flatten

theorem chunks_append (tr₁ tr₂ : List (winCalls.Answered String)) :
    chunks (tr₁ ++ tr₂) = chunks tr₁ ++ chunks tr₂ := by
  unfold chunks
  rw [List.filterMap_append, List.flatten_append]

/-- The reads that were not the last. -/
def reads (tr : List (winCalls.Answered String)) : ℕ := (tr.filterMap chunkOf).countP (· ≠ [])

theorem reads_append (tr₁ tr₂ : List (winCalls.Answered String)) :
    reads (tr₁ ++ tr₂) = reads tr₁ + reads tr₂ := by
  unfold reads
  rw [List.filterMap_append, List.countP_append]

theorem reads_le_cons (x : winCalls.Answered String) (tr : List (winCalls.Answered String)) :
    reads tr ≤ reads (x :: tr) := by
  rw [← List.singleton_append, reads_append]
  omega

theorem chunks_of_forall (h : ∀ x ∈ tr, chunkOf x = none) : chunks tr = [] := by
  unfold chunks
  rw [List.filterMap_eq_nil_iff.2 h]
  rfl

/-- Calls that neither disturb a copy nor read for it. -/
def Idle (tr : List (winCalls.Answered String)) : Prop :=
  ∀ x ∈ tr, disturbs x = false ∧ creates x = false ∧ chunkOf x = none

/-- Before the temp file is created. -/
structure Untouched (w : WinWorld) (tr : List (winCalls.Answered String)) (w' : WinWorld) :
    Prop where
  files : w'.files = w.files
  calls : ∀ x ∈ tr, creates x = false

theorem Untouched.append {tr₁ tr₂ : List (winCalls.Answered String)} (h₁ : Untouched w tr₁ m)
    (h₂ : Untouched m tr₂ w') : Untouched w (tr₁ ++ tr₂) w' :=
  ⟨h₂.files.trans h₁.files, List.forall_mem_append.2 ⟨h₁.calls, h₂.calls⟩⟩

theorem Untouched.cons {x : winCalls.Answered String} (hx : creates x = false)
    (h : Untouched m tr w') (hm : m.files = w.files) : Untouched w (x :: tr) w' :=
  ⟨h.files.trans hm, List.forall_mem_cons.2 ⟨hx, h.calls⟩⟩

theorem untouched_nil : Untouched w [] w := ⟨rfl, fun _ h => absurd h List.not_mem_nil⟩

theorem Idle.untouched (h : Idle tr) : Untouched w tr w := ⟨rfl, fun x hx => (h x hx).2.1⟩

theorem Idle.cons {x : winCalls.Answered String} (hx : disturbs x = false ∧ creates x = false ∧
    chunkOf x = none) (h : Idle tr) : Idle (x :: tr) :=
  List.forall_mem_cons.2 ⟨hx, h⟩

theorem Idle.quiet (h : Idle tr) : ∀ x ∈ tr, disturbs x = false := fun x hx => (h x hx).1

theorem Idle.chunks (h : Idle tr) : chunks tr = [] := chunks_of_forall fun x hx => (h x hx).2.2

theorem Idle.append {tr' : List (winCalls.Answered String)} (h : Idle tr) (h' : Idle tr') :
    Idle (tr ++ tr') :=
  List.forall_mem_append.2 ⟨h, h'⟩

/-- **A call that does not throw, and then the rest.** -/
theorem traces_win {α : Type} {a : WinCall} {f : a.Answer → WinTask α} {r : Except String α}
    (hthrow : ∀ e m, ¬ a.Does sha256 w (.error e) m)
    (h : (Prog.bind (win a) f).Traces (winExec sha256) w tr r w') :
    ∃ (v : a.Answer) (m : WinWorld) (rest : List (winCalls.Answered String)),
      tr = ⟨a, .ok v⟩ :: rest ∧ a.Does sha256 w (.ok v) m ∧
      (f v).Traces (winExec sha256) m rest r w' := by
  rcases Prog.traces_perform_bind h with ⟨e, -, -, he⟩ | hok
  · exact absurd he (hthrow e w')
  · exact hok

/-! ## Describing an error -/

theorem describeError_traces {error : UInt32} {r : Except String String}
    (h : (describeError error).Traces (winExec sha256) w tr r w') : w' = w ∧ Idle tr := by
  obtain ⟨text, m, rest, rfl, hm, hrun⟩ := traces_win (fun _ _ => id) h
  obtain rfl : m = w := hm
  have hfirst (rest : List (winCalls.Answered String)) (hrest : rest = []) :
      Idle (⟨.formatMessage error, .ok text⟩ :: rest) := by
    subst hrest
    exact Idle.cons ⟨rfl, rfl, rfl⟩ fun _ h => absurd h List.not_mem_nil
  dsimp only at hrun
  split_ifs at hrun with hnil
  · obtain ⟨hrest, -, rfl⟩ := hrun
    exact ⟨rfl, hfirst rest hrest⟩
  · split at hrun
    · obtain ⟨hrest, -, rfl⟩ := hrun
      exact ⟨rfl, hfirst rest hrest⟩
    · obtain ⟨hrest, -, rfl⟩ := hrun
      exact ⟨rfl, hfirst rest hrest⟩

theorem finishHex_traces {r : Except String String}
    (h : finishHex.Traces (winExec sha256) w tr r w') :
    w' = w ∧ ((∃ e, r = .error e ∧ tr = [⟨.finishHash, .error e⟩]) ∨
      (r = .ok (hexText (sha256 w.hashed)) ∧ Idle tr)) := by
  rcases Prog.traces_perform_bind h with ⟨e, rfl, rfl, hw⟩ | ⟨digest, m, rest, rfl, hdigest, hrun⟩
  · exact ⟨hw, .inl ⟨e, rfl, rfl⟩⟩
  · obtain ⟨hd, rfl⟩ : digest = sha256 w.hashed ∧ m = w := hdigest
    obtain ⟨rfl, rfl, rfl⟩ := hrun
    refine ⟨rfl, .inr ⟨congrArg (Except.ok ∘ hexText) hd, ?_⟩⟩
    exact Idle.cons ⟨rfl, rfl, rfl⟩ fun _ h => absurd h List.not_mem_nil

namespace WinFileCopyEngine

variable {engine : WinFileCopyEngine} {result : CopyResult} {fuel : ℕ}

variable (sha256) in
/-- The task touches nothing and returns no copied result. -/
def Fails (c : WinTask CopyResult) : Prop :=
  ∀ {w tr r w'}, c.Traces (winExec sha256) w tr r w' →
    w' = w ∧ Idle tr ∧ ∀ x, r = .ok x → x.action ≠ .copied

theorem fails_failWith {action : CopyAction} {what : String} {error : UInt32}
    (haction : action ≠ .copied) : Fails sha256 (failWith result action what error) := by
  intro w tr r w' h
  rcases Prog.traces_bind.1 h with ⟨e, rfl, htext⟩ | ⟨v, m, tr₁, tr₂, rfl, htext, rfl, rfl, rfl⟩
  · obtain ⟨hw, hidle⟩ := describeError_traces htext
    exact ⟨hw, hidle, fun x hx => by cases hx⟩
  · obtain ⟨hw, hidle⟩ := describeError_traces htext
    rw [List.append_nil]
    refine ⟨hw, hidle, fun x hx => ?_⟩
    cases hx
    exact haction

theorem fails_failSource {missing failed : String} {error : UInt32} :
    Fails sha256 (failSource result missing failed error) := by
  intro w tr r w' h
  unfold failSource at h
  split_ifs at h
  · exact fails_failWith (by decide) h
  · exact fails_failWith (by decide) h

/-! ## The temp file -/

/-- The temp file while it is copied into: it is there, and open by `destination` alone,
without sharing. -/
structure Holding (temp : WString) (destination : ℕ) (w : WinWorld) : Prop where
  opened : ⟨destination, temp, false⟩ ∈ w.handles
  path : ∀ file ∈ w.handles, file.handle = destination → file.path = temp
  alone : ∀ file ∈ w.handles, file.path = temp → file.handle = destination
  present : (w.files temp).isSome

variable {temp : WString} {source destination : ℕ}

theorem Holding.of_eq (h : Holding temp destination w) (hhandles : m.handles = w.handles)
    (hfile : (m.files temp).isSome) : Holding temp destination m where
  opened := hhandles ▸ h.opened
  path := hhandles ▸ h.path
  alone := hhandles ▸ h.alone
  present := hfile

/-- While it is open it is not deleted. -/
theorem Holding.deleteFile (h : Holding temp destination w) {r : WinResult Unit}
    (hdel : WinCall.Does sha256 w (.deleteFile temp) (.ok r) m) : m = w := by
  have hlocked : w.Locked temp := ⟨_, h.opened, rfl, rfl⟩
  simp only [WinCall.Does, if_pos hlocked] at hdel
  exact hdel.2

/-- Once it is closed it is. -/
theorem Holding.closed (h : Holding temp destination w) :
    ¬ (w.dropHandle destination).Locked temp := by
  rintro ⟨file, hfile, hpath, -⟩
  obtain ⟨hmem, hne⟩ := List.mem_filter.1 hfile
  exact of_decide_eq_true hne (h.alone file hmem hpath)

theorem deleteFile_closed {r : WinResult Unit} (hlocked : ¬ w.Locked temp)
    (hfile : (w.files temp).isSome) (hdel : WinCall.Does sha256 w (.deleteFile temp) (.ok r) m) :
    m = w.setFile temp none := by
  have hsome : w.files temp ≠ none := by
    intro hnone
    rw [hnone] at hfile
    cases hfile
  simp only [WinCall.Does, if_neg hlocked, if_neg hsome] at hdel
  exact hdel.2

/-! ## The copy loop -/

/-- How the loop ends: with what it has read in the temp file and in the hash, with the temp
file deleted, or with the temp file left. -/
inductive LoopOutcome (fuel : ℕ) (temp : WString) (w : WinWorld)
    (tr : List (winCalls.Answered String)) (w' : WinWorld) : Except String LoopExit → Prop
  | running (hreads : fuel ≤ reads tr) : LoopOutcome fuel temp w tr w' (.ok .running)
  | endOfFile (hquiet : ∀ x ∈ tr, disturbs x = false) (hhandles : w'.handles = w.handles)
      (hfiles : w'.files =
        (w.setFile temp ((w.files temp).map (· ++ chunks tr))).files)
      (hhashed : w'.hashed = w.hashed ++ chunks tr) : LoopOutcome fuel temp w tr w' (.ok .endOfFile)
  | dropped {result : CopyResult} (haction : result.action ≠ .copied)
      (hquiet : ∀ x ∈ tr, disturbs x = false)
      (hfiles : w'.files = (w.setFile temp none).files) :
      LoopOutcome fuel temp w tr w' (.ok (.returned result))
  | left {r : Except String LoopExit}
      (hr : ∀ exit, r = .ok exit → ∃ result, exit = .returned result ∧ result.action ≠ .copied)
      (hdisturbs : ∃ x ∈ tr, disturbs x = true) (hpresent : (w'.files temp).isSome)
      (hfiles : ∀ p, p ≠ temp → w'.files p = w.files p) : LoopOutcome fuel temp w tr w' r

/-- A pass of the loop that goes on, and the rest of the loop. -/
theorem LoopOutcome.pass (pre : List (winCalls.Answered String)) {r : Except String LoopExit}
    (h : LoopOutcome fuel temp m tr w' r) (hreads : reads pre = 1)
    (hquiet : ∀ x ∈ pre, disturbs x = false)
    (hhandles : m.handles = w.handles)
    (hfiles : m.files = (w.setFile temp ((w.files temp).map (· ++ chunks pre))).files)
    (hhashed : m.hashed = w.hashed ++ chunks pre) :
    LoopOutcome (fuel + 1) temp w (pre ++ tr) w' r := by
  have hother : ∀ p, p ≠ temp → m.files p = w.files p := fun p hp => by
    rw [hfiles, WinWorld.setFile_ne _ _ hp]
  cases h with
  | running hreads' => exact .running (by rw [reads_append, hreads]; omega)
  | endOfFile hquiet' hhandles' hfiles' hhashed' =>
    refine .endOfFile (List.forall_mem_append.2 ⟨hquiet, hquiet'⟩) (hhandles'.trans hhandles) ?_ ?_
    · have htemp : (m.files temp).map (· ++ chunks tr) =
          (w.files temp).map (· ++ chunks (pre ++ tr)) := by
        rw [hfiles, WinWorld.setFile_self, Option.map_map, chunks_append]
        congr 1
        funext c
        exact List.append_assoc c _ _
      rw [hfiles', htemp, WinWorld.setFile_congr hother]
    · rw [hhashed', hhashed, chunks_append, List.append_assoc]
  | dropped haction hquiet' hfiles' =>
    refine .dropped haction (List.forall_mem_append.2 ⟨hquiet, hquiet'⟩) ?_
    rw [hfiles', WinWorld.setFile_congr hother]
  | left hr hdisturbs hpresent hfiles' =>
    obtain ⟨x, hx, hd⟩ := hdisturbs
    exact .left hr ⟨x, List.mem_append_right pre hx, hd⟩ hpresent
      fun p hp => (hfiles' p hp).trans (hother p hp)

/-- A failing call, then the deletion, which fails too, and the description of the error. -/
theorem left_of_fails {c : WinTask CopyResult} (pre : List (winCalls.Answered String))
    {r : Except String LoopExit} (hc : Fails sha256 c) (hm : Holding temp destination m)
    (hfiles : ∀ p, p ≠ temp → m.files p = w.files p) (hdisturbs : ∃ x ∈ pre, disturbs x = true)
    (h : (Prog.bind (win (.deleteFile temp)) fun _ => Prog.bind c fun failed =>
      pure (LoopExit.returned failed)).Traces (winExec sha256) m tr r w') :
    LoopOutcome fuel temp w (pre ++ tr) w' r := by
  obtain ⟨deleted, u, rest, rfl, hdel, hrest⟩ := traces_win (fun _ _ => id) h
  obtain rfl : u = m := hm.deleteFile hdel
  obtain ⟨x, hx, hd⟩ := hdisturbs
  have hx' (tr : List (winCalls.Answered String)) : ∃ x ∈ pre ++ tr, disturbs x = true :=
    ⟨x, List.mem_append_left tr hx, hd⟩
  rcases Prog.traces_bind.1 hrest with ⟨e, rfl, hfail⟩ |
    ⟨failed, u', tr₁, tr₂, rfl, hfail, rfl, rfl, rfl⟩
  · obtain ⟨rfl, -, -⟩ := hc hfail
    exact .left (fun exit hexit => by cases hexit) (hx' _) hm.present hfiles
  · obtain ⟨rfl, -, hresult⟩ := hc hfail
    refine .left (fun exit hexit => ?_) (hx' _) hm.present hfiles
    cases hexit
    exact ⟨failed, rfl, hresult failed rfl⟩

/-- A write puts data at the end of the temp file. -/
theorem Holding.writeFile (hw : Holding temp destination w) {data : Bytes}
    {outcome : WriteOutcome}
    (hwrite : WinCall.Does sha256 w (.writeFile destination data) (.ok outcome) m) :
    ∃ n ≤ data.length, (outcome.succeeded = true → outcome.written = n) ∧
      m = w.setFile temp ((w.files temp).map (· ++ data.take n)) := by
  obtain ⟨file, hfile, hhandle, n, hn, hwritten, hm⟩ := hwrite
  rw [hw.path file hfile hhandle] at hm
  exact ⟨n, hn, hwritten, hm⟩

theorem Holding.append (hw : Holding temp destination w) (data : Bytes) :
    Holding temp destination (w.setFile temp ((w.files temp).map (· ++ data))) := by
  refine hw.of_eq rfl ?_
  rw [WinWorld.setFile_self, Option.isSome_map]
  exact hw.present

/-- **A chunk** that was read: it is hashed and written, or the copy is disturbed. -/
theorem chunk_traces {chunk : Bytes} {onShort : WriteOutcome → WinTask LoopExit}
    {next : WinTask LoopExit} {r : Except String LoopExit} (hw : Holding temp destination w)
    (h : (Prog.bind (win (.hashData chunk)) fun _ =>
      Prog.bind (win (.writeFile destination chunk)) fun outcome : WriteOutcome =>
        if !outcome.succeeded || outcome.written ≠ chunk.length then onShort outcome
        else next).Traces (winExec sha256) w tr r w') :
    (∃ e, r = .error e ∧ tr = [⟨.hashData chunk, .error e⟩] ∧ w' = w) ∨
      ∃ outcome m rest, tr = ⟨.hashData chunk, .ok ()⟩ ::
          ⟨.writeFile destination chunk, .ok outcome⟩ :: rest ∧ Holding temp destination m ∧
        ((disturbs ⟨.writeFile destination chunk, .ok outcome⟩ = true ∧
            (∀ p, p ≠ temp → m.files p = w.files p) ∧
            (onShort outcome).Traces (winExec sha256) m rest r w') ∨
          (disturbs ⟨.writeFile destination chunk, .ok outcome⟩ = false ∧
            m = { w.setFile temp ((w.files temp).map (· ++ chunk)) with
              hashed := w.hashed ++ chunk } ∧
            next.Traces (winExec sha256) m rest r w')) := by
  rcases Prog.traces_perform_bind h with ⟨e, rfl, rfl, hhash⟩ | ⟨_, m, rest, rfl, hhash, hrun⟩
  · exact .inl ⟨e, rfl, rfl, hhash⟩
  obtain rfl := hhash
  have hm : Holding temp destination { w with hashed := w.hashed ++ chunk } :=
    hw.of_eq rfl hw.present
  obtain ⟨outcome, m, rest₁, rfl, hwrite, hrun₁⟩ := traces_win (fun _ _ => id) hrun
  obtain ⟨n, hn, hwritten, rfl⟩ := hm.writeFile hwrite
  refine .inr ⟨outcome, _, rest₁, rfl, hm.append (chunk.take n), ?_⟩
  by_cases hshort : (!outcome.succeeded || decide (outcome.written ≠ chunk.length)) = true
  · rw [if_pos hshort] at hrun₁
    exact .inl ⟨hshort, fun p hp => WinWorld.setFile_ne _ _ hp, hrun₁⟩
  · rw [if_neg hshort] at hrun₁
    -- the whole chunk is written
    obtain ⟨hsucceeded, hall⟩ : outcome.succeeded = true ∧ outcome.written = chunk.length := by
      simpa using hshort
    have hlen : n = chunk.length := (hwritten hsucceeded).symm.trans hall
    rw [hlen, List.take_length] at hrun₁ ⊢
    exact .inr ⟨Bool.eq_false_iff.2 hshort, rfl, hrun₁⟩

/-- **How the copy loop ends.** -/
theorem copyLoop_traces {tempPath : WString} {r : Except String LoopExit}
    (hw : Holding (extendedPath tempPath) destination w)
    (h : (copyLoop engine source destination tempPath result fuel).Traces (winExec sha256) w tr r
      w') : LoopOutcome fuel (extendedPath tempPath) w tr w' r := by
  induction fuel generalizing w tr with
  | zero =>
    obtain ⟨rfl, rfl, rfl⟩ := h
    exact .running (Nat.zero_le _)
  | succ fuel ih =>
    obtain ⟨cancelled, m, rest, rfl, hm, hrun⟩ := traces_win (fun _ _ => id) h
    obtain rfl : w = m := hm.symm
    by_cases hcancelled : cancelled = true
    · -- the file is closed first, so it is deleted
      rw [if_pos hcancelled] at hrun
      obtain ⟨_, m, rest, rfl, hclose, hrun⟩ := traces_win (fun _ _ => id) hrun
      obtain rfl := hclose
      obtain ⟨deleted, m, rest, rfl, hdel, hrun⟩ := traces_win (fun _ _ => id) hrun
      obtain rfl := deleteFile_closed hw.closed hw.present hdel
      obtain ⟨rfl, rfl, rfl⟩ := hrun
      refine .dropped (by simp) ?_ rfl
      simp only [List.forall_mem_cons]
      exact ⟨rfl, rfl, rfl, fun _ h => absurd h List.not_mem_nil⟩
    · rw [if_neg hcancelled] at hrun
      obtain ⟨read, m, rest, rfl, hread, hrun⟩ := traces_win (fun _ _ => id) hrun
      cases read with
      | error readError =>
        obtain rfl : w = m := hread.symm
        exact left_of_fails [_, _] fails_failSource hw (fun _ _ => rfl)
          ⟨_, List.mem_cons_of_mem _ List.mem_cons_self, rfl⟩ hrun
      | ok chunk =>
        obtain rfl : w = m := hread.2.symm
        cases chunk with
        | nil =>
          obtain ⟨rfl, rfl, hend⟩ := hrun
          obtain rfl : w = w' := hend.symm
          refine .endOfFile ?_ rfl ?_ (List.append_nil _).symm
          · simp only [List.forall_mem_cons]
            exact ⟨rfl, rfl, fun _ h => absurd h List.not_mem_nil⟩
          · have hsame : (w.files (extendedPath tempPath)).map (· ++ []) =
                w.files (extendedPath tempPath) := by simp
            exact (WinWorld.setFile_eq_self hsame).symm
        | cons byte bytes =>
          rcases chunk_traces hw hrun with ⟨e, rfl, rfl, hend⟩ |
            ⟨outcome, m, rest, rfl, hm, ⟨hshort, hfiles, hrun⟩ | ⟨hquiet, rfl, hrun⟩⟩
          · obtain rfl : w = w' := hend.symm
            exact .left (fun exit hexit => by cases hexit) ⟨_, List.mem_of_getLast? rfl, rfl⟩
              hw.present fun _ _ => rfl
          · exact left_of_fails [_, _, _, _] (fails_failWith (by decide)) hm hfiles
              ⟨_, List.mem_of_getLast? rfl, hshort⟩ hrun
          · set pass : List (winCalls.Answered String) := [⟨.loadCancelled, .ok cancelled⟩,
              ⟨.readFile source engine.readSize, .ok (.ok (byte :: bytes))⟩,
              ⟨.hashData (byte :: bytes), .ok ()⟩,
              ⟨.writeFile destination (byte :: bytes), .ok outcome⟩]
            have hchunk : chunks pass = byte :: bytes := List.append_nil _
            refine (ih hm hrun).pass pass rfl ?_ rfl ?_ ?_
            · simp only [pass, List.forall_mem_cons]
              exact ⟨rfl, rfl, rfl, hquiet, fun _ h => absurd h List.not_mem_nil⟩
            · rw [hchunk]
            · rw [hchunk]

/-! ## The end of a copy -/

/-- The call has thrown, or returned something else than a copied file. -/
def Unpublished : Except String (Option CopyResult) → Prop
  | .ok (some result) => result.action ≠ .copied
  | .ok none => False
  | .error _ => True

/-- A failure, described. -/
theorem some_fails {c : WinTask CopyResult} (hc : Fails sha256 c)
    {r : Except String (Option CopyResult)}
    (h : (some <$> c).Traces (winExec sha256) w tr r w') :
    w' = w ∧ Idle tr ∧ Unpublished r := by
  rcases Prog.traces_bind.1 h with ⟨e, rfl, hfail⟩ | ⟨v, m, tr₁, tr₂, rfl, hfail, rfl, rfl, rfl⟩
  · obtain ⟨hw, hidle, -⟩ := hc hfail
    exact ⟨hw, hidle, trivial⟩
  · obtain ⟨hw, hidle, hv⟩ := hc hfail
    rw [List.append_nil]
    exact ⟨hw, hidle, hv v rfl⟩

/-- What the handler of `copy_and_hash` returns. -/
theorem caught_traces {c : WinTask (Option CopyResult)} {r : Except String (Option CopyResult)}
    (h : (Prog.tryCatch c (caught result)).Traces (winExec sha256) w tr r w') :
    ∃ r₀, c.Traces (winExec sha256) w tr r₀ w' ∧
      (r = r₀ ∨ (∃ e, r₀ = .error e) ∧ Unpublished r) := by
  rcases Prog.traces_tryCatch.1 h with ⟨v, rfl, hc⟩ | ⟨e, m, tr₁, tr₂, rfl, hc, rfl, rfl, rfl⟩
  · exact ⟨_, hc, .inl rfl⟩
  · rw [List.append_nil]
    refine ⟨_, hc, .inr ⟨⟨e, rfl⟩, ?_⟩⟩
    simp [Unpublished]

/-- How a copy ends that has created the temp file: it is running, or the temp file is
published, dropped or left. `size` is what the source was said to be long. -/
inductive Outcome (sha256 : Bytes → Bytes) (fuel : ℕ) (temp cache : WString) (size : UInt64)
    (w : WinWorld) (tr : List (winCalls.Answered String)) (w' : WinWorld) :
    Except String (Option CopyResult) → Prop
  | running (hreads : fuel ≤ reads tr) : Outcome sha256 fuel temp cache size w tr w' (.ok none)
  | published {result : CopyResult} (haction : result.action = .copied)
      (hquiet : ∀ x ∈ tr, disturbs x = false)
      (hfiles : w'.files = ((w.setFile cache (some (chunks tr))).setFile temp none).files)
      (hhash : result.hashHex = hexText (sha256 (chunks tr)))
      (hsize : result.cachedSizeBytes = size) :
      Outcome sha256 fuel temp cache size w tr w' (.ok (some result))
  | dropped {r : Except String (Option CopyResult)} (hr : Unpublished r)
      (hquiet : ∀ x ∈ tr, disturbs x = false)
      (hfiles : w'.files = (w.setFile temp none).files) :
      Outcome sha256 fuel temp cache size w tr w' r
  | left {r : Except String (Option CopyResult)} (hr : Unpublished r)
      (hdisturbs : ∃ x ∈ tr, disturbs x = true) (hpresent : (w'.files temp).isSome)
      (hfiles : ∀ p, p ≠ temp → w'.files p = w.files p) :
      Outcome sha256 fuel temp cache size w tr w' r

theorem Holding.closed_both (h : Holding temp destination w) :
    ¬ ((w.dropHandle source).dropHandle destination).Locked temp := by
  rintro ⟨file, hfile, hpath, -⟩
  obtain ⟨hrest, hne⟩ := List.mem_filter.1 hfile
  exact of_decide_eq_true hne (h.alone file (List.mem_filter.1 hrest).1 hpath)

/-- **The rename**: it publishes the temp file, or the temp file is deleted. -/
theorem moveToCache_traces {tempPath cacheAbs : WString} {r : Except String (Option CopyResult)}
    (hm : Holding (extendedPath tempPath) destination m)
    (h : (moveToCache source destination tempPath cacheAbs result).Traces (winExec sha256) m tr r
      w') :
    Idle tr ∧
      ((r = .ok (some { result with action := .copied }) ∧ w'.files =
          ((m.setFile (extendedPath cacheAbs) (m.files (extendedPath tempPath))).setFile
            (extendedPath tempPath) none).files) ∨
        (Unpublished r ∧ w'.files = (m.setFile (extendedPath tempPath) none).files)) := by
  obtain ⟨_, u, rest, rfl, hu, hrun⟩ := traces_win (fun _ _ => id) h
  obtain rfl := hu
  obtain ⟨_, u, rest₁, rfl, hu, hrun₁⟩ := traces_win (fun _ _ => id) hrun
  obtain rfl := hu
  obtain ⟨moved, u, rest₂, rfl, hmoved, hrun₂⟩ := traces_win (fun _ _ => id) hrun₁
  cases moved with
  | ok =>
    obtain ⟨-, -, -, rfl⟩ := hmoved
    obtain ⟨rfl, rfl, rfl⟩ := hrun₂
    refine ⟨?_, .inl ⟨rfl, rfl⟩⟩
    exact .cons ⟨rfl, rfl, rfl⟩ (.cons ⟨rfl, rfl, rfl⟩ (.cons ⟨rfl, rfl, rfl⟩
      fun _ h => absurd h List.not_mem_nil))
  | error moveError =>
    obtain rfl := hmoved
    obtain ⟨deleted, u, rest₃, rfl, hdel, hrun₃⟩ := traces_win (fun _ _ => id) hrun₂
    have hu := deleteFile_closed hm.closed_both hm.present hdel
    obtain ⟨r₀, hfail, hr⟩ := caught_traces hrun₃
    obtain ⟨rfl, hidle, hr₀⟩ := some_fails (fails_failWith (by decide)) hfail
    refine ⟨.cons ⟨rfl, rfl, rfl⟩ (.cons ⟨rfl, rfl, rfl⟩ (.cons ⟨rfl, rfl, rfl⟩
      (.cons ⟨rfl, rfl, rfl⟩ hidle))), .inr ⟨?_, by rw [hu]; rfl⟩⟩
    rcases hr with rfl | ⟨-, hr⟩
    · exact hr₀
    · exact hr

/-- **Publishing**: `pre` has copied its chunks into the temp file and the hash. -/
theorem publish_traces {tempPath cacheAbs : WString} (pre : List (winCalls.Answered String))
    {r : Except String (Option CopyResult)} (hm : Holding (extendedPath tempPath) destination m)
    (hquiet : ∀ x ∈ pre, disturbs x = false)
    (hfiles : m.files = (w.setFile (extendedPath tempPath) (some (chunks pre))).files)
    (hhashed : m.hashed = chunks pre)
    (h : (publish source destination tempPath cacheAbs result).Traces (winExec sha256) m tr r w') :
    Outcome sha256 fuel (extendedPath tempPath) (extendedPath cacheAbs) result.sourceSizeBytes w
      (pre ++ tr) w' r := by
  have hother : ∀ p, p ≠ extendedPath tempPath → m.files p = w.files p := fun p hp => by
    rw [hfiles, WinWorld.setFile_ne _ _ hp]
  rcases Prog.traces_bind.1 h with ⟨e, rfl, hfinish⟩ | ⟨hash, u, tr₁, tr₂, rfl, hfinish, hrun⟩
  · -- the temp file is still open
    obtain ⟨rfl, ⟨e', he, rfl⟩ | ⟨hok, -⟩⟩ := finishHex_traces hfinish
    · exact .left trivial ⟨_, List.mem_append_right pre List.mem_cons_self, rfl⟩ hm.present hother
    · cases hok
  obtain ⟨rfl, ⟨e', he, -⟩ | ⟨hhash, hidle⟩⟩ := finishHex_traces hfinish
  · cases he
  obtain rfl := Except.ok.inj hhash
  obtain ⟨completedAt, u', rest, rfl, hu, hrun₁⟩ := traces_win (fun _ _ => id) hrun
  obtain rfl := hu
  obtain ⟨hidle', hend⟩ := moveToCache_traces hm hrun₁
  have hrest : Idle (tr₁ ++ ⟨.now, .ok completedAt⟩ :: rest) :=
    hidle.append (.cons ⟨rfl, rfl, rfl⟩ hidle')
  have hall := List.forall_mem_append.2 ⟨hquiet, hrest.quiet⟩
  have hchunks : chunks (pre ++ (tr₁ ++ ⟨.now, .ok completedAt⟩ :: rest)) = chunks pre := by
    rw [chunks_append, hrest.chunks, List.append_nil]
  rcases hend with ⟨rfl, hpublished⟩ | ⟨hr, hdropped⟩
  · refine .published rfl hall ?_ ?_ rfl
    · rw [hpublished, hchunks, hfiles, WinWorld.setFile_self]
      refine WinWorld.setFile_congr fun p hp => ?_
      by_cases hcache : p = extendedPath cacheAbs
      · rw [hcache, WinWorld.setFile_self, WinWorld.setFile_self]
      · rw [WinWorld.setFile_ne _ _ hcache, WinWorld.setFile_ne _ _ hcache, hother p hp]
    · rw [hchunks, ← hhashed]
  · refine .dropped hr hall ?_
    rw [hdropped, WinWorld.setFile_congr hother]

/-- An idle call before. -/
theorem Outcome.cons {cache : WString} {size : UInt64} {r : Except String (Option CopyResult)}
    {x : winCalls.Answered String} (h : Outcome sha256 fuel temp cache size w tr w' r)
    (hx : disturbs x = false) (hchunk : chunkOf x = none) :
    Outcome sha256 fuel temp cache size w (x :: tr) w' r := by
  have hchunks : chunks (x :: tr) = chunks tr := by
    unfold chunks
    rw [List.filterMap_cons_none hchunk]
  cases h with
  | running hreads => exact .running (hreads.trans (reads_le_cons x tr))
  | published haction hquiet hfiles hhash hsize =>
    refine .published haction (List.forall_mem_cons.2 ⟨hx, hquiet⟩) ?_ ?_ hsize
    · rw [hchunks, hfiles]
    · rw [hchunks, hhash]
  | dropped hr hquiet hfiles =>
    exact .dropped hr (List.forall_mem_cons.2 ⟨hx, hquiet⟩) hfiles
  | left hr hdisturbs hpresent hfiles =>
    obtain ⟨y, hy, hd⟩ := hdisturbs
    exact .left hr ⟨y, List.mem_cons_of_mem _ hy, hd⟩ hpresent hfiles

/-- A last call that is idle and changes no file. -/
theorem Outcome.close {cache : WString} {size : UInt64} {r : Except String (Option CopyResult)}
    {u : WinWorld} (h : Outcome sha256 fuel temp cache size w tr u r) {handle : ℕ}
    (hfiles : w'.files = u.files) :
    Outcome sha256 fuel temp cache size w (tr ++ [⟨.closeHandle handle, .ok ()⟩]) w' r := by
  have hidle : Idle [⟨.closeHandle handle, .ok ()⟩] :=
    .cons ⟨rfl, rfl, rfl⟩ fun _ h => absurd h List.not_mem_nil
  have hchunks : chunks (tr ++ [⟨.closeHandle handle, .ok ()⟩]) = chunks tr := by
    rw [chunks_append, hidle.chunks, List.append_nil]
  cases h with
  | running hreads => exact .running (by rw [reads_append]; omega)
  | published haction hquiet hfiles' hhash hsize =>
    refine .published haction (List.forall_mem_append.2 ⟨hquiet, hidle.quiet⟩) ?_ ?_ hsize
    · rw [hchunks, hfiles, hfiles']
    · rw [hchunks, hhash]
  | dropped hr hquiet hfiles' =>
    exact .dropped hr (List.forall_mem_append.2 ⟨hquiet, hidle.quiet⟩) (hfiles.trans hfiles')
  | left hr hdisturbs hpresent hfiles' =>
    obtain ⟨x, hx, hd⟩ := hdisturbs
    refine .left hr ⟨x, List.mem_append_left _ hx, hd⟩ (hfiles ▸ hpresent) fun p hp => ?_
    rw [hfiles, hfiles' p hp]

/-- Only the other files of the state before matter. -/
theorem Outcome.of_files {cache : WString} {size : UInt64} {r : Except String (Option CopyResult)}
    (h : Outcome sha256 fuel temp cache size m tr w' r)
    (hfiles : ∀ p, p ≠ temp → m.files p = w.files p) :
    Outcome sha256 fuel temp cache size w tr w' r := by
  cases h with
  | running hreads => exact .running hreads
  | published haction hquiet hfiles' hhash hsize =>
    refine .published haction hquiet ?_ hhash hsize
    rw [hfiles']
    refine WinWorld.setFile_congr fun p hp => ?_
    by_cases hcache : p = cache
    · rw [hcache, WinWorld.setFile_self, WinWorld.setFile_self]
    · rw [WinWorld.setFile_ne _ _ hcache, WinWorld.setFile_ne _ _ hcache, hfiles p hp]
  | dropped hr hquiet hfiles' =>
    exact .dropped hr hquiet (hfiles'.trans (WinWorld.setFile_congr hfiles))
  | left hr hdisturbs hpresent hfiles' =>
    exact .left hr hdisturbs hpresent fun p hp => (hfiles' p hp).trans (hfiles p hp)

/-- The copy loop, then publishing. -/
theorem copyLoop_publish_traces {tempPath cacheAbs : WString}
    {r : Except String (Option CopyResult)} (hw : Holding (extendedPath tempPath) destination w)
    (hempty : w.files (extendedPath tempPath) = some []) (hhashed : w.hashed = [])
    (h : (Prog.bind (copyLoop engine source destination tempPath result fuel) fun exit =>
      match exit with
      | .running => return none
      | .returned result => return some result
      | .endOfFile => publish source destination tempPath cacheAbs result).Traces
        (winExec sha256) w tr r w') :
    Outcome sha256 fuel (extendedPath tempPath) (extendedPath cacheAbs) result.sourceSizeBytes w tr
      w' r := by
  rcases Prog.traces_bind.1 h with ⟨e, rfl, hloop⟩ | ⟨exit, u, tr₁, tr₂, rfl, hloop, hrun⟩
  · cases copyLoop_traces hw hloop with
    | left _ hdisturbs hpresent hfiles => exact .left trivial hdisturbs hpresent hfiles
  generalize hr : (Except.ok exit : Except String LoopExit) = r₁ at hloop
  cases copyLoop_traces hw hloop with
  | running hreads =>
    obtain rfl := Except.ok.inj hr
    obtain ⟨rfl, rfl, rfl⟩ := hrun
    rw [List.append_nil]
    exact .running hreads
  | endOfFile hquiet hhandles hfiles hfed =>
    obtain rfl := Except.ok.inj hr
    have hpresent : (u.files (extendedPath tempPath)).isSome := by
      rw [hfiles, WinWorld.setFile_self, Option.isSome_map]
      exact hw.present
    have hcopied : u.files = (w.setFile (extendedPath tempPath) (some (chunks tr₁))).files := by
      rw [hfiles, hempty]
      rfl
    have hdigest : u.hashed = chunks tr₁ := by
      rw [hfed, hhashed, List.nil_append]
    exact publish_traces tr₁ (hw.of_eq hhandles hpresent) hquiet hcopied hdigest hrun
  | dropped haction hquiet hfiles =>
    obtain rfl := Except.ok.inj hr
    obtain ⟨rfl, rfl, rfl⟩ := hrun
    rw [List.append_nil]
    exact .dropped haction hquiet hfiles
  | left hexit hdisturbs hpresent hfiles =>
    obtain ⟨failed, rfl, haction⟩ := hexit exit hr.symm
    obtain ⟨rfl, rfl, rfl⟩ := hrun
    rw [List.append_nil]
    exact .left haction hdisturbs hpresent hfiles

/-- **How a copy ends** that has created its temp file, still empty. -/
theorem copyInto_traces {tempPath cacheAbs : WString} {r : Except String (Option CopyResult)}
    (hw : Holding (extendedPath tempPath) destination w)
    (hempty : w.files (extendedPath tempPath) = some [])
    (h : (copyInto engine fuel source destination tempPath cacheAbs result).Traces
      (winExec sha256) w tr r w') :
    Outcome sha256 fuel (extendedPath tempPath) (extendedPath cacheAbs) result.sourceSizeBytes w tr
      w' r := by
  rcases Prog.traces_perform_bind h with ⟨e, rfl, rfl, hw'⟩ | ⟨_, u, rest, rfl, hhash, hrun⟩
  · obtain rfl : w = w' := hw'.symm
    exact .left trivial ⟨_, List.mem_cons_self, rfl⟩ hw.present fun _ _ => rfl
  obtain rfl := hhash
  have hfresh : Holding (extendedPath tempPath) destination { w with hashed := [] } :=
    hw.of_eq rfl hw.present
  suffices hrest : Outcome sha256 fuel (extendedPath tempPath) (extendedPath cacheAbs)
      result.sourceSizeBytes { w with hashed := [] } rest w' r from
    .cons (hrest.of_files fun p _ => rfl) rfl rfl
  rcases Prog.traces_perform_bind hrun with ⟨e, rfl, rfl, hw'⟩ | ⟨_, u, rest₁, rfl, hu, hrun₁⟩
  · obtain rfl := hw'
    exact .left trivial ⟨_, List.mem_cons_self, rfl⟩ hfresh.present fun _ _ => rfl
  obtain rfl := hu
  exact .cons (copyLoop_publish_traces hfresh hempty rfl hrun₁) rfl rfl

/-! ## The whole call -/

/-- A program that closes a file when it is left. -/
theorem ensuring_close {α : Type} {c : WinTask α} {handle : ℕ} {r : Except String α}
    (h : (c.ensuring (win (.closeHandle handle))).Traces (winExec sha256) w tr r w') :
    ∃ tr₁ u, tr = tr₁ ++ [⟨.closeHandle handle, .ok ()⟩] ∧ c.Traces (winExec sha256) w tr₁ r u ∧
      w'.files = u.files := by
  obtain ⟨r₀, u, tr₁, tr₂, rfl, hc, ⟨e, -, hclose⟩ | ⟨rfl, hclose⟩⟩ := Prog.traces_ensuring h
  · obtain ⟨-, hthrown⟩ := Prog.traces_perform.1 hclose
    exact hthrown.elim
  · obtain ⟨rfl, hw'⟩ := Prog.traces_perform.1 hclose
    refine ⟨tr₁, u, rfl, hc, ?_⟩
    rw [show w' = u.dropHandle handle from hw']
    rfl

/-- How a call ends: before it has created the temp file, or as the copy into it does. -/
inductive CopyRun (sha256 : Bytes → Bytes) (fuel : ℕ) (cacheAbs : WString) (size : UInt64)
    (w : WinWorld) (tr : List (winCalls.Answered String)) (w' : WinWorld)
    (r : Except String (Option CopyResult)) : Prop
  | before (huntouched : Untouched w tr w') (hr : r = .ok none ∧ fuel ≤ reads tr ∨ Unpublished r)
  | after {pre post : List (winCalls.Answered String)} {handle : ℕ}
      (htr : tr = pre ++ ⟨.createExclusive (extendedPath (cacheAbs ++ tempSuffix)),
        .ok (.ok handle)⟩ :: post)
      (hpre : ∀ x ∈ pre, creates x = false)
      (houtcome : Outcome sha256 fuel (extendedPath (cacheAbs ++ tempSuffix))
        (extendedPath cacheAbs) size w post w' r)

/-- Calls before that touch no file. -/
theorem CopyRun.of_untouched {cacheAbs : WString} {size : UInt64}
    {r : Except String (Option CopyResult)} {pre : List (winCalls.Answered String)}
    (h : CopyRun sha256 fuel cacheAbs size m tr w' r) (hpre : Untouched w pre m) :
    CopyRun sha256 fuel cacheAbs size w (pre ++ tr) w' r := by
  cases h with
  | before huntouched hr =>
    refine .before (hpre.append huntouched) (hr.imp (fun hrunning => ⟨hrunning.1, ?_⟩) id)
    rw [reads_append]
    exact hrunning.2.trans (Nat.le_add_left _ _)
  | @after pre' post handle htr hpre' houtcome =>
    refine .after (congrArg (pre ++ ·) htr |>.trans (List.append_assoc _ _ _).symm)
      (List.forall_mem_append.2 ⟨hpre.calls, hpre'⟩) (houtcome.of_files fun p _ => ?_)
    rw [hpre.files]

theorem CopyRun.close {cacheAbs : WString} {size : UInt64} {u : WinWorld}
    {r : Except String (Option CopyResult)} (h : CopyRun sha256 fuel cacheAbs size w tr u r)
    {handle : ℕ} (hfiles : w'.files = u.files) :
    CopyRun sha256 fuel cacheAbs size w (tr ++ [⟨.closeHandle handle, .ok ()⟩]) w' r := by
  cases h with
  | before huntouched hr =>
    refine .before ⟨hfiles.trans huntouched.files, ?_⟩
      (hr.imp (fun hrunning => ⟨hrunning.1, ?_⟩) id)
    · exact List.forall_mem_append.2 ⟨huntouched.calls, by simp [creates]⟩
    · rw [reads_append]
      exact hrunning.2.trans (Nat.le_add_right _ _)
  | after htr hpre houtcome =>
    exact .after (by rw [htr, List.append_assoc, List.cons_append]) hpre (houtcome.close hfiles)

/-- A new exclusive file is held. -/
theorem holding_created {w : WinWorld} {temp : WString} {destination : ℕ}
    (h : ∀ file ∈ w.handles, file.path ≠ temp ∧ file.handle ≠ destination) :
    Holding temp destination
      ((w.setFile temp (some [])).addHandle ⟨destination, temp, false⟩) where
  opened := List.mem_cons_self
  path file hfile hhandle := by
    rcases List.mem_cons.1 hfile with rfl | hfile
    · rfl
    · exact absurd hhandle (h file hfile).2
  alone file hfile hpath := by
    rcases List.mem_cons.1 hfile with rfl | hfile
    · rfl
    · exact absurd hpath (h file hfile).1
  present := by
    show ((w.setFile temp (some [])).files temp).isSome = true
    rw [WinWorld.setFile_self]
    rfl

theorem copyFrom_traces {cacheAbs : WString} {r : Except String (Option CopyResult)}
    (h : (copyFrom engine fuel source cacheAbs result).Traces (winExec sha256) w tr r w') :
    CopyRun sha256 fuel cacheAbs result.sourceSizeBytes w tr w' r := by
  obtain ⟨created, u, rest, rfl, hcreated, hrun⟩ := traces_win (fun _ _ => id) h
  cases created with
  | error openError =>
    obtain rfl := hcreated
    obtain ⟨rfl, hidle, hr⟩ := some_fails (fails_failWith (by decide)) hrun
    exact .before (.cons rfl hidle.untouched rfl) (.inr hr)
  | ok destination =>
    obtain ⟨hfree, rfl⟩ := hcreated
    obtain ⟨tr₁, u, rfl, hcopy, hfiles⟩ := ensuring_close hrun
    have hempty : ((w.setFile (extendedPath (cacheAbs ++ tempSuffix)) (some [])).addHandle
        ⟨destination, extendedPath (cacheAbs ++ tempSuffix), false⟩).files
        (extendedPath (cacheAbs ++ tempSuffix)) = some [] := WinWorld.setFile_self _ _ _
    have houtcome := copyInto_traces (holding_created hfree) hempty hcopy
    exact .after (List.nil_append _).symm (fun _ h => absurd h List.not_mem_nil)
      ((houtcome.of_files fun p hp => WinWorld.setFile_ne _ _ hp).close hfiles)

/-- The handler makes another failure of an exception. -/
theorem CopyRun.caught {cacheAbs : WString} {size : UInt64} {e : String}
    {r : Except String (Option CopyResult)} (h : CopyRun sha256 fuel cacheAbs size w tr w' (.error e))
    (hr : Unpublished r) : CopyRun sha256 fuel cacheAbs size w tr w' r := by
  cases h with
  | before huntouched => exact .before huntouched (.inr hr)
  | after htr hpre houtcome =>
    refine .after htr hpre ?_
    cases houtcome with
    | dropped _ hquiet hfiles => exact .dropped hr hquiet hfiles
    | left _ hdisturbs hpresent hfiles => exact .left hr hdisturbs hpresent hfiles

theorem replaceFile_traces {sourceAbs cacheAbs : WString} {r : Except String (Option CopyResult)}
    (h : (replaceFile engine fuel sourceAbs cacheAbs result).Traces (winExec sha256) w tr r w') :
    CopyRun sha256 fuel cacheAbs result.sourceSizeBytes w tr w' r := by
  obtain ⟨r₀, hbody, hr⟩ := caught_traces h
  have hrun : CopyRun sha256 fuel cacheAbs result.sourceSizeBytes w tr w' r₀ := by
    rcases Prog.traces_perform_bind hbody with ⟨e, rfl, rfl, hw'⟩ | ⟨_, u, rest, rfl, hu, hrest⟩
    · obtain rfl : w = w' := hw'.symm
      exact .before (.cons rfl untouched_nil rfl) (.inr trivial)
    obtain rfl : w = u := hu.symm
    obtain ⟨opened, u, rest₁, rfl, hopened, hrest₁⟩ := traces_win (fun _ _ => id) hrest
    cases opened with
    | error openError =>
      obtain rfl : w = u := hopened.symm
      obtain ⟨rfl, hidle, hfail⟩ := some_fails fails_failSource hrest₁
      exact .before (.cons rfl (.cons rfl hidle.untouched rfl) rfl) (.inr hfail)
    | ok source =>
      obtain ⟨-, -, -, rfl⟩ := hopened
      obtain ⟨tr₁, u, rfl, hcopy, hfiles⟩ := ensuring_close hrest₁
      have hopen : Untouched w [⟨.ensureDirectory cacheAbs, .ok ()⟩,
          ⟨.openExisting (extendedPath sourceAbs), .ok (.ok source)⟩]
          (w.addHandle ⟨source, extendedPath sourceAbs, true⟩) :=
        .cons rfl (.cons rfl untouched_nil rfl) rfl
      exact ((copyFrom_traces hcopy).close hfiles).of_untouched hopen
  rcases hr with rfl | ⟨⟨e, rfl⟩, hr⟩
  · exact hrun
  · exact hrun.caught hr

theorem someHash_traces {r : Except String (Option String)}
    (h : (Prog.bind finishHex fun hash => pure (some hash)).Traces (winExec sha256) w tr r w') :
    Untouched w tr w' ∧ r ≠ .ok none := by
  have hcall (r : Except String String) (tr : List (winCalls.Answered String)) (u : WinWorld)
      (h : finishHex.Traces (winExec sha256) w tr r u) : Untouched w tr u := by
    obtain ⟨rfl, ⟨e, -, rfl⟩ | ⟨-, hidle⟩⟩ := finishHex_traces h
    · exact .cons rfl untouched_nil rfl
    · exact hidle.untouched
  rcases Prog.traces_bind.1 h with ⟨e, rfl, hfinish⟩ | ⟨v, u, tr₁, tr₂, rfl, hfinish, rfl, rfl, rfl⟩
  · exact ⟨hcall _ _ _ hfinish, by simp⟩
  · rw [List.append_nil]
    exact ⟨hcall _ _ _ hfinish, by simp⟩

/-- Hashing a file touches none, and goes on as long as there are chunks. -/
theorem hashLoop_traces {r : Except String (Option String)}
    (h : (hashLoop engine source fuel).Traces (winExec sha256) w tr r w') :
    Untouched w tr w' ∧ (r = .ok none → fuel ≤ reads tr) := by
  induction fuel generalizing w tr with
  | zero =>
    obtain ⟨rfl, -, rfl⟩ := h
    exact ⟨untouched_nil, fun _ => Nat.zero_le _⟩
  | succ fuel ih =>
    obtain ⟨read, u, rest, rfl, hread, hrun⟩ := traces_win (fun _ _ => id) h
    cases read with
    | error readError =>
      obtain rfl := hread
      obtain ⟨rfl, rfl, rfl⟩ := hrun
      exact ⟨.cons rfl untouched_nil rfl, fun hr => by cases hr⟩
    | ok chunk =>
      obtain rfl := hread.2
      cases chunk with
      | nil =>
        obtain ⟨hfinish, hr⟩ := someHash_traces hrun
        exact ⟨.cons rfl hfinish rfl, fun hnone => absurd hnone hr⟩
      | cons byte bytes =>
        rcases Prog.traces_perform_bind hrun with ⟨e, rfl, rfl, hw'⟩ | ⟨_, u, rest₁, rfl, hu, hrun₁⟩
        · obtain rfl := hw'
          exact ⟨.cons rfl (.cons rfl untouched_nil rfl) rfl, fun hr => by cases hr⟩
        · obtain rfl := hu
          obtain ⟨hrest, hreads⟩ := ih hrun₁
          refine ⟨.cons rfl (.cons rfl hrest rfl) rfl, fun hr => ?_⟩
          -- this pass has read one chunk
          have hpass := reads_append [⟨.readFile source engine.readSize, .ok (.ok (byte :: bytes))⟩]
            (⟨.hashData (byte :: bytes), .ok ()⟩ :: rest₁)
          have hle := reads_le_cons ⟨.hashData (byte :: bytes), .ok ()⟩ rest₁
          have hone : reads [⟨.readFile source engine.readSize, .ok (.ok (byte :: bytes))⟩] = 1 :=
            rfl
          have hfuel := hreads hr
          rw [List.singleton_append] at hpass
          exact hpass ▸ by omega

theorem hashExistingFile_traces {path : WString} {r : Except String (Option String)}
    (h : (hashExistingFile engine fuel path).Traces (winExec sha256) w tr r w') :
    Untouched w tr w' ∧ (r = .ok none → fuel ≤ reads tr) := by
  obtain ⟨opened, u, rest, rfl, hopened, hrun⟩ := traces_win (fun _ _ => id) h
  cases opened with
  | error openError =>
    obtain rfl := hopened
    obtain ⟨rfl, rfl, rfl⟩ := hrun
    exact ⟨.cons rfl untouched_nil rfl, fun hr => by cases hr⟩
  | ok source =>
    obtain ⟨-, -, -, rfl⟩ := hopened
    obtain ⟨tr₁, u, rfl, hhash, hfiles⟩ := ensuring_close hrun
    have hclose : Untouched u [⟨.closeHandle source, .ok ()⟩] w' :=
      .cons rfl untouched_nil hfiles
    have hbody : Untouched (w.addHandle ⟨source, extendedPath path, true⟩) tr₁ u ∧
        (r = .ok none → fuel ≤ reads tr₁) := by
      rcases Prog.traces_perform_bind hhash with ⟨e, rfl, rfl, hu⟩ | ⟨_, v, rest₁, rfl, hv, hrun₁⟩
      · obtain rfl := hu
        exact ⟨.cons rfl untouched_nil rfl, fun hr => by cases hr⟩
      obtain rfl := hv
      rcases Prog.traces_perform_bind hrun₁ with ⟨e, rfl, rfl, hu⟩ | ⟨_, v, rest₂, rfl, hv, hrun₂⟩
      · obtain rfl := hu
        exact ⟨.cons rfl (.cons rfl untouched_nil rfl) rfl, fun hr => by cases hr⟩
      obtain rfl := hv
      obtain ⟨hloop, hreads⟩ := hashLoop_traces hrun₂
      exact ⟨.cons rfl (.cons rfl hloop rfl) rfl,
        fun hr => (hreads hr).trans ((reads_le_cons _ _).trans (reads_le_cons _ _))⟩
    refine ⟨.cons rfl (hbody.1.append hclose) rfl, fun hr => ?_⟩
    refine (hbody.2 hr).trans (le_trans ?_ (reads_le_cons _ _))
    rw [reads_append]
    exact Nat.le_add_right _ _

theorem compareHashes_traces {sourceAbs cacheAbs : WString}
    {r : Except String (Option CopyResult)}
    (h : (compareHashes engine fuel sourceAbs cacheAbs result).Traces (winExec sha256) w tr r w') :
    CopyRun sha256 fuel cacheAbs result.sourceSizeBytes w tr w' r := by
  rcases Prog.traces_bind.1 h with ⟨e, rfl, hsource⟩ | ⟨sourceHash, u, tr₁, tr₂, rfl, hsource, hrun⟩
  · exact .before (hashExistingFile_traces hsource).1 (.inr trivial)
  obtain ⟨hfirst, hreads⟩ := hashExistingFile_traces hsource
  cases sourceHash with
  | none =>
    obtain ⟨rfl, rfl, rfl⟩ := hrun
    rw [List.append_nil]
    exact .before hfirst (.inl ⟨rfl, hreads rfl⟩)
  | some sourceHash =>
    refine CopyRun.of_untouched ?_ hfirst
    rcases Prog.traces_bind.1 hrun with ⟨e, rfl, hcache⟩ |
      ⟨cacheHash, v, tr₃, tr₄, rfl, hcache, hrun₁⟩
    · exact .before (hashExistingFile_traces hcache).1 (.inr trivial)
    obtain ⟨hsecond, hreads'⟩ := hashExistingFile_traces hcache
    cases cacheHash with
    | none =>
      obtain ⟨rfl, rfl, rfl⟩ := hrun₁
      rw [List.append_nil]
      exact .before hsecond (.inl ⟨rfl, hreads' rfl⟩)
    | some cacheHash =>
      refine CopyRun.of_untouched ?_ hsecond
      by_cases heq : sourceHash = cacheHash
      · simp only [if_pos heq] at hrun₁
        obtain ⟨rfl, rfl, rfl⟩ := hrun₁
        exact .before untouched_nil (.inr (by simp [Unpublished]))
      · simp only [if_neg heq] at hrun₁
        exact replaceFile_traces hrun₁

/-- The size that the source was found to have. -/
def queriedSize (tr : List (winCalls.Answered String)) : Option UInt64 :=
  tr.findSome? fun
    | ⟨.getFileAttributesEx _, .ok (.ok size)⟩ => some size
    | _ => none

/-- **What a run of `copy_and_hash` does.** -/
theorem copyAndHash_traces {sourceAbs cacheAbs : WString} {compare : Bool}
    {r : Except String (Option CopyResult)}
    (h : (copyAndHash engine fuel sourceAbs cacheAbs compare).Traces (winExec sha256) w tr r w') :
    (Untouched w tr w' ∧ Unpublished r) ∨
      ∃ size, queriedSize tr = some size ∧ CopyRun sha256 fuel cacheAbs size w tr w' r := by
  obtain ⟨started, u, rest, rfl, hu, hrun⟩ := traces_win (fun _ _ => id) h
  obtain rfl : w = u := hu.symm
  obtain ⟨sourceSize, u, rest₁, rfl, hu, hrun₁⟩ := traces_win (fun _ _ => id) hrun
  obtain rfl : w = u := hu.symm
  cases sourceSize with
  | error error =>
    obtain ⟨rfl, hidle, hr⟩ := some_fails fails_failSource hrun₁
    exact .inl ⟨.cons rfl (.cons rfl hidle.untouched rfl) rfl, hr⟩
  | ok size =>
    refine .inr ⟨size, rfl, ?_⟩
    obtain ⟨cacheSize, u, rest₂, rfl, hu, hrun₂⟩ := traces_win (fun _ _ => id) hrun₁
    obtain rfl : w = u := hu.symm
    have hfirst : Untouched w [⟨.now, .ok started⟩,
        ⟨.getFileAttributesEx (extendedPath sourceAbs), .ok (.ok size)⟩,
        ⟨.getFileAttributesEx (extendedPath cacheAbs), .ok cacheSize⟩] w :=
      .cons rfl (.cons rfl (.cons rfl untouched_nil rfl) rfl) rfl
    cases cacheSize with
    | error _ => exact (replaceFile_traces hrun₂).of_untouched hfirst
    | ok cacheSize =>
      dsimp only at hrun₂
      split_ifs at hrun₂ with hsame hcompare
      · obtain ⟨rfl, rfl, rfl⟩ := hrun₂
        exact .before hfirst (.inr (by simp [Unpublished]))
      · exact (compareHashes_traces hrun₂).of_untouched hfirst
      · exact (replaceFile_traces hrun₂).of_untouched hfirst

/-- **The call goes on only as long as a source gives chunks.** -/
theorem fuel_le_reads {sourceAbs cacheAbs : WString} {compare : Bool}
    (h : (copyAndHash engine fuel sourceAbs cacheAbs compare).Traces (winExec sha256) w tr
      (.ok none) w') : fuel ≤ reads tr := by
  rcases copyAndHash_traces h with ⟨-, hr⟩ | ⟨size, -, hrun⟩
  · exact absurd hr id
  · cases hrun with
    | before _ hr =>
      rcases hr with ⟨-, hreads⟩ | hr
      · exact hreads
      · exact absurd hr id
    | @after pre post handle htr hpre houtcome =>
      have hpost : fuel ≤ reads post := by
        cases houtcome with
        | running hreads => exact hreads
        | dropped hr => exact absurd hr id
        | left hr => exact absurd hr id
      rw [htr, reads_append]
      exact hpost.trans ((reads_le_cons _ _).trans (Nat.le_add_left _ _))

end WinFileCopyEngine

end SsdCache
