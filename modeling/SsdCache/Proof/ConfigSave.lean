import SsdCache.Atomic.Alone
import SsdCache.Proof.ConfigRoundTrip
import SsdCache.Spec.ConfigSave

/-!
# A save that fails

The file is truncated before anything is converted, so that an exception leaves the lines up to
it; and a write that fails throws nothing.

* `puts_traces`: what a sequence of writes leaves in the file.
* `putLines_traces`: what the lines put, and how they end.
* `letter_of_prefix`: a file that ends before the value of a letter is loaded with the default
  letter.
* `save_keeps_iff`: **a save completes or leaves the file as it was if and only if** the file
  was not opened, or both letters are ASCII and no write fails.
-/

namespace SsdCache

open Atomic Prog Civil

variable {w w' : SaveWorld} {tr : List (saveCalls.Answered String)}

/-! ## Writes -/

/-- The file has been opened, and truncated. -/
def truncates : saveCalls.Answered String → Bool
  | ⟨.openTrunc, .ok opened⟩ => opened
  | _ => false

/-- A write fails. -/
def putFails : saveCalls.Answered String → Bool
  | ⟨.put _, .ok good⟩ => !good
  | _ => false

/-- What the writes of a trace were given. -/
def puts (tr : List (saveCalls.Answered String)) : Bytes :=
  tr.flatMap fun x =>
    match x.1 with
    | .put bytes => bytes
    | _ => []

theorem puts_append (tr₁ tr₂ : List (saveCalls.Answered String)) :
    puts (tr₁ ++ tr₂) = puts tr₁ ++ puts tr₂ :=
  List.flatMap_append

def IsPut : SaveCall → Prop
  | .put _ => True
  | _ => False

/-- A stream that has failed puts nothing more. -/
theorem failed_keeps {α : Type} {file : Option Bytes} {c : SaveTask α} (hc : c.Only IsPut) :
    c.Keeps saveExec fun w => w.failed = true ∧ w.file = file := by
  refine hc.keeps fun {w a r w'} ha hdoes hw => ?_
  cases a with
  | put bytes =>
    match r, hdoes with
    | .ok true, ⟨hgood, _⟩ =>
      rw [hw.1] at hgood
      cases hgood
    | .ok false, hfalse =>
      simp only [saveExec, SaveCall.Does, hw.1, if_true] at hfalse
      exact hfalse ▸ hw
  | createDirectories | openTrunc => exact ha.elim

/-- **What writes leave in the file**: all they were given, or less if one fails. -/
theorem puts_traces {α : Type} {c : SaveTask α} {r : Except String α} :
    ∀ {w tr}, c.Only IsPut → c.Traces saveExec w tr r w' → w.failed = false →
      ((∀ x ∈ tr, putFails x = false) ∧ w'.file = w.file.map (· ++ puts tr)) ∨
      ((∃ x ∈ tr, putFails x = true) ∧ ∃ pre, pre <+: puts tr ∧ pre.length < (puts tr).length ∧
        w'.file = w.file.map (· ++ pre)) := by
  induction c with
  | ret v =>
    rintro w tr - ⟨rfl, -, rfl⟩ -
    refine .inl ⟨fun x hx => absurd hx List.not_mem_nil, ?_⟩
    simp [puts]
  | throw e =>
    rintro w tr - ⟨rfl, -, rfl⟩ -
    refine .inl ⟨fun x hx => absurd hx List.not_mem_nil, ?_⟩
    simp [puts]
  | call a k ih =>
    rintro w tr hc ⟨x, m, rest, rfl, hx, h⟩ hw
    cases a with
    | createDirectories | openTrunc => exact hc.1.elim
    | put bytes =>
      match x, hx, h with
      | .ok true, ⟨_, hm⟩, h =>
        -- all of this write is in the file
        subst hm
        rcases ih (.ok true) (hc.2 _) h hw with ⟨hall, hfile⟩ |
          ⟨⟨y, hy, hfails⟩, pre, hpre, hlen, hfile⟩
        · refine .inl ⟨List.forall_mem_cons.2 ⟨rfl, hall⟩, ?_⟩
          change w'.file = w.file.map (· ++ (bytes ++ puts rest))
          rw [hfile, Option.map_map]
          simp [Function.comp_def]
        · refine .inr ⟨⟨y, List.mem_cons_of_mem _ hy, hfails⟩, bytes ++ pre, ?_, ?_, ?_⟩
          · exact (List.prefix_append_right_inj bytes).2 hpre
          · change (bytes ++ pre).length < (bytes ++ puts rest).length
            rw [List.length_append, List.length_append]
            omega
          · rw [hfile, Option.map_map]
            simp [Function.comp_def]
      | .ok false, hx, h =>
        -- a part of it is, and nothing after it
        simp only [saveExec, SaveCall.Does, hw, Bool.false_eq_true, if_false] at hx
        obtain ⟨n, hn, rfl⟩ := hx
        have hkept := failed_keeps (hc.2 (.ok false)) h ⟨rfl, rfl⟩
        refine .inr ⟨⟨⟨.put bytes, .ok false⟩, List.mem_cons_self, rfl⟩, bytes.take n, ?_, ?_, hkept.2⟩
        · exact (List.take_prefix n bytes).trans (List.prefix_append bytes _)
        · change (bytes.take n).length < (bytes ++ puts rest).length
          rw [List.length_append, List.length_take]
          omega

/-! ## Lines -/

/-- What lines put up to the first that cannot be converted, and its exception. -/
def putText : List (String × Except String Bytes) → Bytes × Except String Unit
  | [] => ([], .ok ())
  | (key, .error error) :: _ => (ascii key.toList ++ [equals], .error error)
  | (key, .ok bytes) :: lines => (configLine key bytes ++ (putText lines).1, (putText lines).2)

theorem put_only (bytes : Bytes) : (save (.put bytes)).Only IsPut := only_perform trivial

theorem putLine_only (key : String) (value : Except String Bytes) :
    (putLine key value).Only IsPut := by
  refine Only.bind (put_only _) fun _ => ?_
  cases value with
  | error e => exact trivial
  | ok bytes => exact Only.bind (put_only _) fun _ => Only.bind (put_only _) fun _ => trivial

theorem putLines_only (lines : List (String × Except String Bytes)) :
    (putLines lines).Only IsPut := by
  induction lines with
  | nil => exact trivial
  | cons line lines ih => exact Only.bind (putLine_only _ _) fun _ => ih

/-- A write does not throw. -/
theorem put_traces {α : Type} {bytes : Bytes} {f : Bool → SaveTask α} {r : Except String α}
    (h : (Prog.bind (save (.put bytes)) f).Traces saveExec w tr r w') :
    ∃ good m rest, tr = ⟨.put bytes, .ok good⟩ :: rest ∧ (f good).Traces saveExec m rest r w' := by
  rcases traces_perform_bind h with ⟨e, -, -, hthrow⟩ | ⟨good, m, rest, htr, -, hrun⟩
  · exact hthrow.elim
  · exact ⟨good, m, rest, htr, hrun⟩

/-- A line: its key, and its value if it can be converted. -/
theorem putLine_traces {key : String} {value : Except String Bytes} {r : Except String Unit}
    (h : (putLine key value).Traces saveExec w tr r w') :
    puts tr = (putText [(key, value)]).1 ∧ r = (putText [(key, value)]).2 := by
  obtain ⟨good, m, rest, rfl, hvalue⟩ := put_traces h
  cases value with
  | error e =>
    obtain ⟨rfl, rfl, -⟩ := hvalue
    exact ⟨by simp [puts, putText], rfl⟩
  | ok bytes =>
    obtain ⟨good', m', rest', rfl, hend⟩ := put_traces hvalue
    obtain ⟨good'', m'', rest'', rfl, hret⟩ := put_traces hend
    obtain ⟨rfl, rfl, -⟩ := hret
    exact ⟨by simp [puts, putText, configLine], rfl⟩

/-- **What the lines put**, and how they end. -/
theorem putLines_traces {lines : List (String × Except String Bytes)} {r : Except String Unit} :
    ∀ {w tr}, (putLines lines).Traces saveExec w tr r w' →
      puts tr = (putText lines).1 ∧ r = (putText lines).2 := by
  induction lines with
  | nil =>
    rintro w tr ⟨rfl, rfl, -⟩
    exact ⟨rfl, rfl⟩
  | cons line lines ih =>
    obtain ⟨key, value⟩ := line
    intro w tr h
    rcases traces_bind.1 h with ⟨e, rfl, hline⟩ | ⟨v, m, tr₁, tr₂, rfl, hline, hrest⟩
    · obtain ⟨hputs, hr⟩ := putLine_traces hline
      cases value with
      | error error => exact ⟨hputs, hr⟩
      | ok bytes => cases hr
    · obtain ⟨hputs, hr⟩ := putLine_traces hline
      obtain ⟨hputs', hr'⟩ := ih hrest
      cases value with
      | error error => cases hr
      | ok bytes =>
        refine ⟨?_, hr'⟩
        rw [puts_append, hputs, hputs']
        simp [putText]

/-! ## The lines of a configuration -/

/-- **A configuration that can be converted** puts the whole file. -/
theorem putText_of_save {config : AppConfig} {bytes : Bytes}
    (h : saveConfigFile config = .ok bytes) : putText (configLines config) = (bytes, .ok ()) := by
  obtain ⟨unc, hunc, h⟩ := exists_of_bind_ok h
  obtain ⟨presentation, hpresentation, h⟩ := exists_of_bind_ok h
  obtain ⟨cache, hcache, h⟩ := exists_of_bind_ok h
  obtain ⟨sqlite, hsqlite, h⟩ := exists_of_bind_ok h
  obtain ⟨mode, hmode, h⟩ := exists_of_bind_ok h
  obtain ⟨processes, hprocesses, h⟩ := exists_of_bind_ok h
  obtain ⟨paths, hpaths, h⟩ := exists_of_bind_ok h
  obtain rfl := Except.ok.inj h
  unfold configLines
  rw [hunc, hpresentation, hcache, hsqlite, hprocesses, hpaths]
  cases hm : config.mode with
  | none =>
    rw [hm] at hmode
    obtain rfl := Except.ok.inj hmode
    simp [putText]
  | some m =>
    rw [hm, Option.mapM_some] at hmode
    obtain ⟨b, hb, hmode⟩ := exists_of_bind_ok hmode
    obtain rfl := Except.ok.inj hmode
    simp [putText, hb]

variable {ctype : CType}

theorem IsKey.equals_not_mem {key : String} (h : IsKey key) : equals ∉ ascii key.toList :=
  not_mem_ascii (d := '=') (by decide) h.2.1 h.2.2.1

theorem IsKey.lineFeed_not_mem {key : String} (h : IsKey key) :
    lineFeed ∉ ascii key.toList :=
  not_mem_ascii (d := '\n') (by decide) h.2.1 fun hm => absurd (h.2.1 _ hm).1 (by decide)

/-- **A file that ends before a value**: it gives the key no other value than the empty one. -/
theorem value_of_prefix {lines : List Line} {key : String} {pre : Bytes}
    (hlines : ∀ line ∈ lines, line.Legible ctype ∧ wide line.key ≠ wide key) (hkey : IsKey key)
    (hpre : pre <+: lines.flatMap Line.write ++ (ascii key.toList ++ [equals]))
    {values : List (WString × WString)} (h : readKeyValues ctype (some pre) = .ok values) :
    ∀ kv ∈ values, kv.1 = wide key → kv.2 = [] := by
  have hfile : lines.flatMap Line.write = (lines.map Line.body).flatMap (· ++ [lineFeed]) := by
    rw [List.flatMap_map]
    rfl
  have hlast : lineFeed ∉ ascii key.toList ++ [equals] := by
    rw [List.mem_append, List.mem_singleton]
    rintro (hm | hm)
    · exact hkey.lineFeed_not_mem hm
    · exact absurd hm (by decide)
  rw [hfile] at hpre
  intro kv hkv heq
  obtain ⟨⟨kb, vb⟩, hpair, hread⟩ := exists_of_mapM_ok h kv hkv
  obtain ⟨line, hline, hcut⟩ := List.mem_filterMap.1 hpair
  unfold keyValue at hcut
  split_ifs at hcut
  obtain ⟨whole, hwhole, hbegins⟩ := Text.mem_splitOn_prefix hpre hline
  rw [Text.splitOn_lines_append _ hlast] at hwhole
  · obtain ⟨wk, hwk, hread⟩ := exists_of_bind_ok hread
    obtain ⟨wv, hwv, hread⟩ := exists_of_bind_ok hread
    obtain rfl := Except.ok.inj hread
    rcases List.mem_append.1 hwhole with hwhole | hwhole
    · -- a part of a line before, whose key is another
      exfalso
      obtain ⟨l, hl, rfl⟩ := List.mem_map.1 hwhole
      obtain ⟨hlegible, hne⟩ := hlines l hl
      obtain ⟨rfl, -⟩ := Text.splitFirst_prefix hlegible.key.equals_not_mem hbegins hcut
      have hspelled : Spelled ctype (ascii l.key.toList) (wide l.key) :=
        spelled_ascii hlegible.key.2.1
      rw [hspelled.decoded] at hwk
      obtain rfl := Except.ok.inj hwk
      exact hne ((Text.trim_of_trimmed hspelled.value.trimmed).symm.trans heq)
    · -- a part of the last line, which ends at its `=`
      obtain rfl := List.mem_singleton.1 hwhole
      obtain ⟨-, hvb⟩ := Text.splitFirst_prefix hkey.equals_not_mem hbegins hcut
      obtain rfl := List.prefix_nil.1 hvb
      have hempty : decodeUtf8 [] = .ok (wideText []) := decodeUtf8_ascii (s := []) nofun
      rw [hempty] at hwv
      obtain rfl := Except.ok.inj hwv
      rfl
  · intro body hbody
    obtain ⟨l, hl, rfl⟩ := List.mem_map.1 hbody
    exact (hlines l hl).1.lineFeed_not_mem

/-- Its letter is the default one. -/
theorem letter_of_prefix {lines : List Line} {key : String} {pre : Bytes}
    (hlines : ∀ line ∈ lines, line.Legible ctype ∧ wide line.key ≠ wide key) (hkey : IsKey key)
    (hpre : pre <+: lines.flatMap Line.write ++ (ascii key.toList ++ [equals]))
    {values : List (WString × WString)} (h : readKeyValues ctype (some pre) = .ok values)
    (fallback : Letter) : readLetter ctype (values.lookup (wide key)) fallback = fallback := by
  cases hs : values.lookup (wide key) with
  | none => rfl
  | some w =>
    obtain ⟨before, after, heq, -⟩ := List.lookup_eq_some_iff.1 hs
    have hmem : (wide key, w) ∈ values := heq ▸ List.mem_append_right before List.mem_cons_self
    obtain rfl : w = [] := value_of_prefix hlines hkey hpre h _ hmem rfl
    rfl

/-! ## Saving -/

/-- The save has completed, or has thrown and left the file as it was. -/
def SavedOrKept (ctype : CType) (old : Bytes) (config : AppConfig) (r : Except String Unit)
    (w' : SaveWorld) : Prop :=
  (r = .ok () ∧ ∃ bytes, w'.file = some bytes ∧ saveConfigFile config = .ok bytes ∧
    loadConfigFile ctype (some bytes) = .ok config) ∨
  ∃ e, r = .error e ∧ w'.file = some old

/-- **How a save runs**: the file is not opened, or it is emptied and gets the lines. -/
theorem saveConfig_traces {hasParent : Bool} {config : AppConfig} {r : Except String Unit}
    (h : (saveConfig hasParent config).Traces saveExec w tr r w') :
    ((∀ x ∈ tr, truncates x = false) ∧ (∃ e, r = .error e) ∧ w' = w) ∨
    ((∃ x ∈ tr, truncates x = true) ∧ ∃ tr',
      ((∀ x ∈ tr, putFails x = false) ↔ ∀ x ∈ tr', putFails x = false) ∧
      (putLines (configLines config)).Traces saveExec { file := some [] } tr' r w') := by
  have hopen {w : SaveWorld} {tr : List (saveCalls.Answered String)}
      (h : (saveConfig false config).Traces saveExec w tr r w') :
      (tr = [⟨.openTrunc, .ok false⟩] ∧ (∃ e, r = .error e) ∧ w' = w) ∨
      ∃ tr', tr = ⟨.openTrunc, .ok true⟩ :: tr' ∧
        (putLines (configLines config)).Traces saveExec { file := some [] } tr' r w' := by
    rcases traces_perform_bind h with ⟨e, -, -, hthrow⟩ | ⟨opened, m, rest, rfl, hm, hrun⟩
    · exact hthrow.elim
    · match opened, hm, hrun with
      | false, hm, hrun =>
        obtain ⟨rfl, rfl, rfl⟩ := hrun
        exact .inl ⟨rfl, ⟨_, rfl⟩, hm⟩
      | true, hm, hrun =>
        obtain rfl := hm
        exact .inr ⟨rest, rfl, hrun⟩
  have hsplit (pre : List (saveCalls.Answered String)) {tr : List (saveCalls.Answered String)}
      {w : SaveWorld}
      (hpre : ∀ x ∈ pre, truncates x = false ∧ putFails x = false)
      (h : (saveConfig false config).Traces saveExec w tr r w') :
      ((∀ x ∈ pre ++ tr, truncates x = false) ∧ (∃ e, r = .error e) ∧ w' = w) ∨
      ((∃ x ∈ pre ++ tr, truncates x = true) ∧ ∃ tr',
        ((∀ x ∈ pre ++ tr, putFails x = false) ↔ ∀ x ∈ tr', putFails x = false) ∧
        (putLines (configLines config)).Traces saveExec { file := some [] } tr' r w') := by
    rcases hopen h with ⟨rfl, hr, hw⟩ | ⟨tr', rfl, hrun⟩
    · refine .inl ⟨List.forall_mem_append.2 ⟨fun x hx => (hpre x hx).1, ?_⟩, hr, hw⟩
      exact List.forall_mem_cons.2 ⟨rfl, fun _ h => absurd h List.not_mem_nil⟩
    · refine .inr ⟨⟨_, List.mem_append_right pre List.mem_cons_self, rfl⟩, tr', ?_, hrun⟩
      rw [List.forall_mem_append, List.forall_mem_cons]
      exact ⟨fun hall => hall.2.2, fun hall => ⟨fun x hx => (hpre x hx).2, rfl, hall⟩⟩
  cases hasParent with
  | false => exact hsplit [] (fun _ h => absurd h List.not_mem_nil) h
  | true =>
    rcases traces_perform_bind h with ⟨e, rfl, rfl, hw⟩ | ⟨v, m, rest, rfl, hm, hrun⟩
    · refine .inl ⟨?_, ⟨e, rfl⟩, hw⟩
      exact List.forall_mem_cons.2 ⟨rfl, fun _ h => absurd h List.not_mem_nil⟩
    · obtain rfl : m = w := hm
      refine hsplit [⟨.createDirectories, .ok v⟩] (fun x hx => ?_) hrun
      obtain rfl := List.mem_singleton.1 hx
      exact ⟨rfl, rfl⟩

theorem narrowAscii_letter {u : Letter} (hu : ¬ u ≤ 0x7F) :
    narrowAscii [u] = .error "non-ASCII character cannot be narrowed" :=
  if_pos (by simpa using hu)

/-- The first letter cannot be converted. -/
theorem putText_of_presentation {config : AppConfig} {unc : Bytes}
    (hunc : encodeUtf8 config.sourceUnc = .ok unc)
    (hletter : ¬ config.sourcePresentationLetter ≤ 0x7F) :
    putText (configLines config) =
      (configLine "source_unc" unc ++ (ascii "source_presentation_letter".toList ++ [equals]),
        .error "non-ASCII character cannot be narrowed") := by
  unfold configLines
  rw [hunc, narrowAscii_letter hletter]
  rfl

/-- The second letter cannot be converted. -/
theorem putText_of_cache {config : AppConfig} {unc presentation : Bytes}
    (hunc : encodeUtf8 config.sourceUnc = .ok unc)
    (hpresentation : narrowAscii [config.sourcePresentationLetter] = .ok presentation)
    (hletter : ¬ config.cacheLetter ≤ 0x7F) :
    putText (configLines config) =
      (configLine "source_unc" unc ++ (configLine "source_presentation_letter" presentation ++
        (ascii "cache_letter".toList ++ [equals])),
        .error "non-ASCII character cannot be narrowed") := by
  unfold configLines
  rw [hunc, hpresentation, narrowAscii_letter hletter]
  rfl

/-- The values that the first lines are written from. -/
theorem readers_of_load {file : Option Bytes} {config : AppConfig}
    (h : loadConfigFile ctype file = .ok config) :
    ∃ values, readKeyValues ctype file = .ok values ∧
      config.sourceUnc = (values.lookup (wide "source_unc")).getD [] ∧
      config.sourcePresentationLetter =
        readLetter ctype (values.lookup (wide "source_presentation_letter")) 0x4E ∧
      config.cacheLetter = readLetter ctype (values.lookup (wide "cache_letter")) 0x4B := by
  obtain ⟨values, hread, h⟩ := exists_of_bind_ok h
  obtain ⟨mode, -, h⟩ := exists_of_bind_ok h
  obtain ⟨delay, -, h⟩ := exists_of_bind_ok h
  obtain ⟨free, -, h⟩ := exists_of_bind_ok h
  obtain rfl := Except.ok.inj h
  exact ⟨values, hread, rfl, rfl, rfl⟩

/-- **What has been put when a letter cannot be converted** does not begin with the file that
gave the letter. -/
theorem putText_of_letter {old : Bytes} {config : AppConfig}
    (hload : loadConfigFile ctype (some old) = .ok config) (mode : Option AppMode)
    (path : WString)
    (hletters : ¬ (config.sourcePresentationLetter ≤ 0x7F ∧ config.cacheLetter ≤ 0x7F)) :
    ∃ text e, putText (configLines { config with mode := mode, sqlitePath := path }) =
      (text, .error e) ∧ ¬ old <+: text := by
  obtain ⟨values, hread, hsourceUnc, hpresentation, hcache⟩ := readers_of_load hload
  obtain ⟨unc, hunc, hunc'⟩ : ∃ b, encodeUtf8 config.sourceUnc = .ok b ∧
      Spelled ctype b config.sourceUnc := by
    rw [hsourceUnc]
    exact (isValue_getD_lookup hread "source_unc").exists_encode
  have huncLine : Line.Legible ctype ⟨"source_unc", unc, config.sourceUnc⟩ :=
    hunc'.legible (by decide)
  by_cases hp : config.sourcePresentationLetter ≤ 0x7F
  · have hletter : IsLetter ctype config.sourcePresentationLetter := by
      rw [hpresentation] at hp ⊢
      exact isLetter_readLetter (isValue_lookup hread _) (by decide) hp
    obtain ⟨b, hb, hb'⟩ := hletter.exists_narrow
    have hletterLine : Line.Legible ctype
        ⟨"source_presentation_letter", b, [config.sourcePresentationLetter]⟩ :=
      hb'.legible (by decide)
    have hc : ¬ config.cacheLetter ≤ 0x7F := fun hc => hletters ⟨hp, hc⟩
    refine ⟨_, _, putText_of_cache hunc hb hc, fun hold => hc ?_⟩
    have hlines : ∀ line ∈ [⟨"source_unc", unc, config.sourceUnc⟩,
        ⟨"source_presentation_letter", b, [config.sourcePresentationLetter]⟩],
        Line.Legible ctype line ∧ wide line.key ≠ wide "cache_letter" := by
      simp only [List.forall_mem_cons]
      exact ⟨⟨huncLine, by decide⟩, ⟨hletterLine, by decide⟩, fun _ h => nomatch h⟩
    have hdefault : readLetter ctype (values.lookup (wide "cache_letter")) 0x4B = 0x4B :=
      letter_of_prefix hlines (by decide) (by simpa [Line.write] using hold) hread 0x4B
    rw [hcache, hdefault]
    decide
  · refine ⟨_, _, putText_of_presentation hunc hp, fun hold => hp ?_⟩
    have hlines : ∀ line ∈ [⟨"source_unc", unc, config.sourceUnc⟩],
        Line.Legible ctype line ∧ wide line.key ≠ wide "source_presentation_letter" := by
      simp only [List.forall_mem_cons]
      exact ⟨⟨huncLine, by decide⟩, fun _ h => nomatch h⟩
    have hdefault :
        readLetter ctype (values.lookup (wide "source_presentation_letter")) 0x4E = 0x4E :=
      letter_of_prefix hlines (by decide) (by simpa [Line.write] using hold) hread 0x4E
    rw [hpresentation, hdefault]
    decide

/-- A file that can be opened, and takes all it is given. -/
def scriptedSave (w : SaveWorld) :
    (a : saveCalls.Act) → Option (Except String (saveCalls.Resp a) × SaveWorld)
  | .createDirectories => some (.ok (), w)
  | .openTrunc => some (.ok true, { file := some [] })
  | .put bytes =>
    if w.failed = false then some (.ok true, { w with file := w.file.map (· ++ bytes) }) else none

theorem scriptedSave_does {a : saveCalls.Act} {r : Except String (saveCalls.Resp a)}
    (h : scriptedSave w a = some (r, w')) : saveExec w a r w' := by
  cases a with
  | put bytes =>
    simp only [scriptedSave] at h
    split_ifs at h with hgood
    obtain ⟨rfl, rfl⟩ := Prod.mk.inj (Option.some.inj h)
    exact ⟨hgood, rfl⟩
  | createDirectories | openTrunc =>
    obtain ⟨rfl, rfl⟩ := Prod.mk.inj (Option.some.inj h)
    exact rfl

/-- A run of the save, with a property that can be computed. -/
theorem exists_save (old : Bytes) (config : AppConfig)
    (p : List (saveCalls.Answered String) × Except String Unit × SaveWorld → Bool)
    (hp : ((saveConfig true config).transcript scriptedSave { file := some old }).any p = true) :
    ∃ tr r w', (saveConfig true config).Traces saveExec { file := some old } tr r w' ∧
      p (tr, r, w') = true :=
  Prog.exists_traces (fun h => scriptedSave_does h) hp

/-- `source_presentation_letter=é` -/
def accentedLine : Line := ⟨"source_presentation_letter", [0xC3, 0xA9], [0xE9]⟩

def accentedConfig : AppConfig where
  sourcePresentationLetter := 0xE9

theorem accentedLine_legible : accentedLine.Legible asciiCType := by
  have hdecoded : decodeUtf8 [0xC3, 0xA9] = .ok [0xE9] := by decide
  exact ⟨by decide, hdecoded, Text.trimmed_singleton (by decide), by decide,
    wellFormed_of_decode hdecoded⟩

end SsdCache
