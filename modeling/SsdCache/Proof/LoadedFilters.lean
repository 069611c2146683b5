import SsdCache.Spec.LoadedFilters

/-!
# A loaded driver is found

The entries of a buffer are read at their places (`contains_entries`), one call brings some of
the remaining filters (`ends_findEntries`), and the loop is by induction on its calls
(`findLoadedFilter_reports`).

* `queryDriverState_reports`: **a driver whose service is stopped counts as running exactly when
  it is loaded**, however the Filter Manager cuts the enumeration into buffers.
-/

namespace SsdCache.LoadedFilters

open Atomic Binary

variable {fold : CaseFold} {buffer bytes : List UInt8} {filterName filter : WString}
variable {filters loaded : List WString}

/-! ## What is claimed -/

/-- A filter of this name, up to case, is loaded. -/
def IsLoaded (fold : CaseFold) (filterName : WString) (loaded : List WString) : Prop :=
  ∃ filter ∈ loaded, equalsIgnoreCase fold filterName filter = true

/-- The result is whether the filter is loaded; after a failed call it may be missed. -/
def Reports (fold : CaseFold) (filterName : WString) (loaded : List WString)
    (r : Except Unit Bool) (m : Manager) : Prop :=
  ∃ found, r = .ok found ∧ (found = true → IsLoaded fold filterName loaded) ∧
    (m.failed = false → IsLoaded fold filterName loaded → found = true)

/-- No unit of the name is folded to the terminator. -/
def Terminates (fold : CaseFold) (filterName : WString) : Prop :=
  ∀ c ∈ filterName, fold.towlower c ≠ 0

/-! ## One entry -/

theorem unit_lt (u : UInt16) : u.toNat < 256 ^ 2 := u.toNat_lt

/-- The names are compared unit by unit. -/
theorem sameUnits_eq {i : ℕ} (hat : At buffer i (filter.flatMap fun u => split 2 u.toNat))
    (hlength : filterName.length = filter.length) (hname : Terminates fold filterName) :
    sameUnits fold buffer i filterName = some ((filterName.zip filter).all fun pair =>
      fold.towlower pair.1 = fold.towlower pair.2) := by
  induction filterName generalizing filter i with
  | nil => rfl
  | cons c name ih =>
    cases filter with
    | nil => cases hlength
    | cons u filter =>
      rw [List.flatMap_cons] at hat
      obtain ⟨hunit, hrest⟩ := hat.append
      rw [length_split] at hrest
      have hread : readAt buffer i 2 = some u.toNat := hunit.readAt (by decide) (unit_lt u)
      have hname' : Terminates fold name := fun c hc => hname c (List.mem_cons_of_mem _ hc)
      have htail := ih hrest (Nat.succ.inj hlength) hname'
      simp only [sameUnits, hread, Option.bind_eq_bind, Option.bind_some, UInt16.ofNat_toNat]
      by_cases hsame : fold.towlower u = fold.towlower c
      · -- the comparison goes on only before the terminator
        have hnonzero : fold.towlower u ≠ 0 := by
          rw [hsame]
          exact hname c List.mem_cons_self
        rw [if_neg (not_not.2 hsame), if_neg hnonzero, htail, List.zip_cons_cons, List.all_cons,
          decide_eq_true hsame.symm, Bool.true_and]
      · rw [if_pos hsame, List.zip_cons_cons, List.all_cons,
          decide_eq_false (fun h => hsame h.symm), Bool.false_and]

theorem length_units (filter : WString) :
    (filter.flatMap fun u => split 2 u.toNat).length = 2 * filter.length := by
  induction filter with
  | nil => rfl
  | cons u filter ih =>
    rw [List.flatMap_cons, List.length_append, length_split, ih, List.length_cons]
    ring

theorem length_entry {next : ℕ} {middle : List UInt8} (hmiddle : middle.length = 8) :
    (entry next middle filter).length = entrySize filter := by
  simp only [entry, List.length_append, length_split, hmiddle, length_units, entrySize, headerSize]
  omega

/-- Where the fields of an entry stand. -/
theorem entry_at {i next : ℕ} {middle tail : List UInt8} (hmiddle : middle.length = 8)
    (hat : At buffer i (entry next middle filter ++ tail)) :
    At buffer i (split 4 next) ∧ At buffer (i + 12) (split 2 (2 * filter.length)) ∧
      At buffer (i + 14) (filter.flatMap fun u => split 2 u.toNat) ∧
      At buffer (i + entrySize filter) tail := by
  obtain ⟨hentry, htail⟩ := hat.append
  obtain ⟨hnext, hrest⟩ := hentry.append
  obtain ⟨-, hrest⟩ := hrest.append
  obtain ⟨hlength, hname⟩ := hrest.append
  rw [length_entry hmiddle] at htail
  simp only [length_split, hmiddle] at hlength hname
  exact ⟨hnext, hlength, hname, htail⟩

/-- An entry is matched by its name. -/
theorem matches_entry {i next : ℕ} {middle tail : List UInt8} (hname : Terminates fold filterName)
    (hsize : 2 * filter.length < 256 ^ 2) (hmiddle : middle.length = 8)
    (hat : At buffer i (entry next middle filter ++ tail)) :
    matchesFilterName fold buffer i filterName =
      some (equalsIgnoreCase fold filterName filter) := by
  obtain ⟨-, hlength, hunits, -⟩ := entry_at hmiddle hat
  have hread : readAt buffer (i + 12) 2 = some (2 * filter.length) :=
    hlength.readAt (by decide) hsize
  have hhalf : 2 * filter.length / 2 = filter.length := Nat.mul_div_cancel_left _ (by decide)
  simp only [matchesFilterName, hread, Option.bind_eq_bind, Option.bind_some, hhalf]
  by_cases hsame : filter.length = filterName.length
  · rw [if_pos hsame, sameUnits_eq hunits hsame.symm hname, equalsIgnoreCase,
      decide_eq_true hsame.symm, Bool.true_and]
  · rw [if_neg hsame, equalsIgnoreCase, decide_eq_false (fun h => hsame h.symm), Bool.false_and]

/-! ## A buffer -/

/-- The place of the next entry. -/
theorem readAt_next {i next : ℕ} {middle tail : List UInt8} (hnext : next < 256 ^ 4)
    (hmiddle : middle.length = 8) (hat : At buffer i (entry next middle filter ++ tail)) :
    readAt buffer i 4 = some next :=
  (entry_at hmiddle hat).1.readAt (by decide) hnext

theorem containsFrom_entries (hname : Terminates fold filterName) {fuel i : ℕ}
    (hentries : Entries bytes filters) (hat : At buffer i bytes) (hfuel : filters.length ≤ fuel) :
    containsFrom fold buffer filterName fuel i =
      some (filters.any fun filter => equalsIgnoreCase fold filterName filter) := by
  induction filters generalizing bytes fuel i with
  | nil => exact hentries.elim
  | cons filter filters ih =>
    obtain ⟨fuel, rfl⟩ : ∃ n, fuel = n + 1 := ⟨fuel - 1, by
      rw [List.length_cons] at hfuel
      omega⟩
    cases filters with
    | nil =>
      obtain ⟨hsize, middle, tail, hmiddle, rfl⟩ := hentries
      have hnext := readAt_next (by decide) hmiddle hat
      simp only [containsFrom, matches_entry hname hsize hmiddle hat, hnext,
        Option.bind_eq_bind, Option.bind_some, if_true, List.any_cons, List.any_nil, Bool.or_false]
      cases equalsIgnoreCase fold filterName filter with
      | true => rfl
      | false => rfl
    | cons second filters =>
      obtain ⟨hsize, middle, padding, tail, hmiddle, hoffset, rfl, hrest⟩ := hentries
      have hnext := readAt_next hoffset hmiddle hat
      -- only the last entry of a chain has offset zero
      have hnonzero : entrySize filter + padding.length ≠ 0 := by
        unfold entrySize headerSize
        omega
      obtain ⟨-, -, -, htail⟩ := entry_at hmiddle hat
      obtain ⟨-, htail⟩ := htail.append
      rw [Nat.add_assoc] at htail
      have hlater := ih hrest htail (Nat.le_of_succ_le_succ hfuel)
      rw [List.any_cons]
      simp only [containsFrom, matches_entry hname hsize hmiddle hat, hnext, hnonzero, hlater,
        Option.bind_eq_bind, Option.bind_some, if_false]
      cases equalsIgnoreCase fold filterName filter with
      | true => rfl
      | false => rfl

/-- Every entry takes a byte of the buffer. -/
theorem length_entries (hentries : Entries bytes filters) : filters.length ≤ bytes.length := by
  induction filters generalizing bytes with
  | nil => exact Nat.zero_le _
  | cons filter filters ih =>
    cases filters with
    | nil =>
      obtain ⟨-, middle, tail, -, rfl⟩ := hentries
      simp only [entry, List.length_append, length_split, List.length_cons, List.length_nil]
      omega
    | cons second filters =>
      obtain ⟨-, middle, padding, tail, -, -, rfl, hrest⟩ := hentries
      have hlater := ih hrest
      simp only [entry, List.length_append, length_split, List.length_cons] at hlater ⊢
      omega

/-- **A buffer is searched to the end of its chain**, whatever follows the entries. -/
theorem contains_entries (hname : Terminates fold filterName) (hentries : Entries bytes filters)
    (hat : bytes <+: buffer) : bufferContainsFilter fold buffer filterName =
      some (filters.any fun filter => equalsIgnoreCase fold filterName filter) :=
  containsFrom_entries hname hentries hat ((length_entries hentries).trans hat.length_le)

/-! ## One call -/

variable {m m' : Manager} {r : Except Unit Bool} {call : ℕ → FindCall}

/-- What a call of `find` leads to: entries at the beginning of the buffer, the end of the
enumeration, or a failure. -/
inductive Brings (m : Manager) : FindAnswer × List UInt8 → Manager → Prop
  | entries {bytes buffer : List UInt8} {filters rest : List WString} :
      m.remaining = filters ++ rest → Entries bytes filters → bytes <+: buffer →
        Brings m (.entries bytes, buffer) { m with remaining := rest }
  | noMoreItems {buffer : List UInt8} : m.remaining = [] → Brings m (.noMoreItems, buffer) m
  | failed {buffer : List UInt8} : Brings m (.failed, buffer) { m with failed := true }

/-- An answer that does not ask for a larger buffer. -/
theorem brings_of_answers {a : FindCall} {answer : FindAnswer} (buffer : List UInt8)
    (ha : m.Answers a (.ok answer) m') (hfits : ∀ n, answer ≠ .insufficientBuffer n) :
    Brings m (answer, answer.write buffer) m' := by
  cases answer with
  | entries bytes =>
    obtain ⟨-, filters, rest, hentries, hremaining, rfl⟩ := ha
    exact .entries hremaining hentries (List.prefix_append _ _)
  | insufficientBuffer n => exact absurd rfl (hfits n)
  | noMoreItems =>
    obtain ⟨hremaining, rfl⟩ := ha
    exact .noMoreItems hremaining
  | failed =>
    obtain rfl : m' = { m with failed := true } := ha
    exact .failed

theorem length_resize {size : ℕ} (hsize : buffer.length ≤ size) :
    (resize buffer size).length = size := by
  rw [resize, List.length_append, List.length_replicate]
  omega

/-- **One call**: the second try has the space that the first one asked for. -/
theorem ends_findEntries {f : FindAnswer × List UInt8 → FindTask Bool}
    (hcall : ∀ size, (call size).size = size)
    (h : ((findEntries call buffer).bind f).Ends Manager.Answers m r m') :
    ∃ found u, Brings m found u ∧ (f found).Ends Manager.Answers u r m' := by
  obtain ⟨x, u, hx, h⟩ := h
  cases x with
  | error e => exact hx.elim
  | ok answer =>
    have hx : m.Answers (call buffer.length) (.ok answer) u := hx
    cases answer with
    | entries | noMoreItems | failed =>
      exact ⟨_, u, brings_of_answers buffer hx (fun _ => nofun), h⟩
    | insufficientBuffer bytesReturned =>
      obtain ⟨⟨filter, rest, hremaining, hsmall, hrequired⟩, rfl⟩ := hx
      rw [hcall] at hsmall
      have hgrows : bytesReturned > buffer.length := lt_of_lt_of_le hsmall hrequired
      have hretry : ((if bytesReturned > buffer.length then
          (find (call (resize buffer bytesReturned).length)).bind fun answer =>
            .ret (answer, answer.write (resize buffer bytesReturned))
          else .ret (.insufficientBuffer bytesReturned, buffer)).bind f).Ends
            Manager.Answers u r m' := h
      rw [if_pos hgrows] at hretry
      obtain ⟨x, v, hx, h⟩ := hretry
      cases x with
      | error e => exact hx.elim
      | ok answer =>
        have hx : u.Answers (call (resize buffer bytesReturned).length) (.ok answer) v := hx
        refine ⟨_, v, brings_of_answers (resize buffer bytesReturned) hx ?_, h⟩
        rintro n rfl
        -- the filter that did not fit does now
        obtain ⟨⟨filter', rest', hremaining', hsmall', -⟩, -⟩ := hx
        rw [hremaining] at hremaining'
        obtain ⟨rfl, rfl⟩ := List.cons.inj hremaining'
        rw [hcall, length_resize hgrows.le] at hsmall'
        omega

/-! ## The enumeration -/

/-- A name that is among the reported filters or the rest is among all of them. -/
theorem exists_append {p : WString → Bool} {reported rest : List WString} :
    (∃ filter ∈ reported ++ rest, p filter = true) ↔
      reported.any p = true ∨ ∃ filter ∈ rest, p filter = true := by
  simp only [List.mem_append, List.any_eq_true, or_and_right, exists_or]

/-- **From one call on**: what the rest of the enumeration reports of the remaining filters. -/
theorem scan_reports {rest : List UInt8 → FindTask Bool} {found : FindAnswer × List UInt8}
    {u : Manager} (hname : Terminates fold filterName) (hfound : Brings m found u)
    (hrest : ∀ {buffer}, u.remaining.length < m.remaining.length →
      (rest buffer).Ends Manager.Answers u r m' → Reports fold filterName u.remaining r m')
    (h : (scan fold filterName rest found).Ends Manager.Answers u r m') :
    Reports fold filterName m.remaining r m' := by
  cases hfound with
  | noMoreItems hremaining =>
    obtain ⟨rfl, rfl⟩ := h
    refine ⟨false, rfl, nofun, fun _ hloaded => ?_⟩
    rw [hremaining] at hloaded
    obtain ⟨filter, hmem, -⟩ := hloaded
    cases hmem
  | failed =>
    obtain ⟨rfl, rfl⟩ := h
    exact ⟨false, rfl, nofun, nofun⟩
  | @entries bytes buffer filters remaining hremaining hentries hprefix =>
    have hscan := contains_entries hname hentries hprefix
    simp only [scan, hscan] at h
    cases hany : filters.any fun filter => equalsIgnoreCase fold filterName filter with
    | true =>
      rw [hany] at h
      obtain ⟨rfl, rfl⟩ := h
      rw [hremaining]
      exact ⟨true, rfl, fun _ => exists_append.2 (.inl hany), fun _ _ => rfl⟩
    | false =>
      rw [hany] at h
      -- a call that succeeds reports something, so that the rest is shorter
      have hshorter : remaining.length < m.remaining.length := by
        have hnonempty : filters ≠ [] := by
          rintro rfl
          exact hentries
        rw [hremaining, List.length_append]
        have := List.length_pos_of_ne_nil hnonempty
        omega
      obtain ⟨found, hr, hsound, hcomplete⟩ := hrest hshorter h
      refine ⟨found, hr, fun hfound => ?_, fun hfailed hloaded => hcomplete hfailed ?_⟩
      · rw [hremaining]
        exact exists_append.2 (.inr (hsound hfound))
      · rw [hremaining] at hloaded
        rcases exists_append.1 hloaded with hreported | hloaded
        · rw [hany] at hreported
          cases hreported
        · exact hloaded

/-- The loop, with a call for every remaining filter and one more. -/
theorem findNext_reports (hname : Terminates fold filterName) {fuel : ℕ}
    (hfuel : m.remaining.length < fuel)
    (h : (findNext fold filterName fuel buffer).Ends Manager.Answers m r m') :
    Reports fold filterName m.remaining r m' := by
  induction fuel generalizing m buffer with
  | zero => exact absurd hfuel (Nat.not_lt_zero _)
  | succ fuel ih =>
    obtain ⟨found, u, hfound, h⟩ := ends_findEntries (fun _ => rfl) h
    exact scan_reports hname hfound (fun hshorter hrest => ih (by omega) hrest) h

/-- The enumeration from the first call on. -/
theorem findLoadedFilter_reports (hname : Terminates fold filterName) {fuel : ℕ}
    (hfuel : loaded.length ≤ fuel)
    (h : (findLoadedFilter fold filterName fuel).Ends Manager.Answers { remaining := loaded } r
      m') : Reports fold filterName loaded r m' := by
  obtain ⟨found, u, hfound, h⟩ := ends_findEntries (fun _ => rfl) h
  refine scan_reports (m := { remaining := loaded }) hname hfound (fun hshorter hrest => ?_) h
  exact findNext_reports hname (lt_of_lt_of_le hshorter hfuel) hrest

/-- The last entry of an answer. -/
theorem entries_last (hsize : 2 * filter.length < 256 ^ 2) :
    Entries (entry 0 (List.replicate 8 0) filter) [filter] :=
  ⟨hsize, List.replicate 8 0, [], rfl, (List.append_nil _).symm⟩

theorem entriesOf_spec {size : ℕ} {rest : List WString} (hlong : 2 * filter.length < 256 ^ 2)
    (hsize : entrySize filter ≤ size) :
    (entriesOf size filter rest).1.length ≤ size ∧ ∃ filters,
      Entries (entriesOf size filter rest).1 filters ∧
        filter :: rest = filters ++ (entriesOf size filter rest).2 := by
  have hlength (next : ℕ) (filter : WString) :
      (entry next (List.replicate 8 0) filter).length = entrySize filter := length_entry rfl
  cases rest with
  | nil => exact ⟨(hlength 0 filter).trans_le hsize, [filter], entries_last hlong, rfl⟩
  | cons second rest =>
    simp only [entriesOf]
    split_ifs with hfits
    · obtain ⟨hsecond, hfits⟩ := hfits
      refine ⟨?_, [filter, second], ⟨hlong, List.replicate 8 0, padding filter, _, rfl, ?_, rfl,
        entries_last hsecond⟩, rfl⟩
      · simp only [List.length_append, hlength]
        omega
      · simp only [entrySize, headerSize, padding, List.length_replicate]
        omega
    · exact ⟨(hlength 0 filter).trans_le hsize, [filter], entries_last hlong, rfl⟩

theorem answers_answer {a : FindCall} {x : Except Unit FindAnswer}
    (h : m.answer a = some (x, m')) : m.Answers a x m' := by
  unfold Manager.answer at h
  split at h
  · rename_i hremaining
    cases h
    exact ⟨hremaining, rfl⟩
  · rename_i filter rest hremaining
    split_ifs at h with hlong hsmall
    · cases h
      rfl
    · cases h
      exact ⟨⟨filter, rest, hremaining, hsmall, le_rfl⟩, rfl⟩
    · cases h
      obtain ⟨hlength, filters, hentries, hall⟩ :=
        entriesOf_spec (not_le.1 hlong) (not_lt.1 hsmall)
      exact ⟨hlength, filters, _, hentries, hremaining.trans hall, rfl⟩

/-- **The driver's state.** Let the Filter Manager enumerate the loaded filters in any portions,
with any padding and anything after the entries, and ask for larger buffers. When the loop may
run once for each filter, `query_driver_state` ends with no read outside a buffer. It gives the
service manager's answer unless that is `Stopped`; then it says `Running` only if a filter of
the driver's name, up to case, is loaded, and whenever one is and no call fails. -/
theorem queryDriverState_reports (hname : Terminates fold kDriverServiceName)
    {serviceState : ServiceState} {fuel : ℕ} (hfuel : loaded.length ≤ fuel)
    {r : Except Unit ServiceState} (h : (queryDriverState fold serviceState fuel).Ends
      Manager.Answers { remaining := loaded } r m') :
    ∃ state, r = .ok state ∧ (serviceState ≠ .stopped → state = serviceState) ∧
      (serviceState = .stopped → (state = .running ∨ state = .stopped) ∧
        (state = .running → IsLoaded fold kDriverServiceName loaded) ∧
        (m'.failed = false → IsLoaded fold kDriverServiceName loaded → state = .running)) := by
  by_cases hstopped : serviceState = .stopped
  · subst hstopped
    have h : ((findLoadedFilter fold kDriverServiceName fuel).bind fun loaded =>
        if loaded then .ret .running else .ret .stopped).Ends Manager.Answers
          { remaining := loaded } r m' := h
    cases r with
    | error e =>
      rcases Prog.ends_bind_error h with hfind | ⟨found, m, hfind, hrest⟩
      · obtain ⟨found, hr, -⟩ := findLoadedFilter_reports hname hfuel hfind
        cases hr
      · cases found with
        | true => cases hrest.1
        | false => cases hrest.1
    | ok state =>
      obtain ⟨found, m, hfind, hrest⟩ := Prog.ends_bind h
      obtain ⟨found', hr, hsound, hcomplete⟩ := findLoadedFilter_reports hname hfuel hfind
      cases hr
      refine ⟨state, rfl, fun hne => absurd rfl hne, fun _ => ?_⟩
      cases found with
      | true =>
        obtain ⟨hstate, -⟩ := hrest
        cases hstate
        exact ⟨.inl rfl, fun _ => hsound rfl, fun _ _ => rfl⟩
      | false =>
        obtain ⟨hstate, rfl⟩ := hrest
        cases hstate
        refine ⟨.inr rfl, nofun, fun hfailed hloaded => ?_⟩
        cases hcomplete hfailed hloaded
  · have hdefinite : queryDriverState fold serviceState fuel = .ret serviceState := by
      refine if_pos ?_
      cases serviceState with
      | stopped => exact absurd rfl hstopped
      | missing | startPending | stopPending | running => simp
    rw [hdefinite] at h
    obtain ⟨rfl, -⟩ := h
    exact ⟨serviceState, rfl, fun _ => rfl, fun hs => absurd hs hstopped⟩

/-- The name of the first filter needs a larger buffer; the driver is the second one of the
next, and its name is in lower case. -/
def threeLoaded : List WString := [List.replicate 2050 0x61, wide "FileInfo", wide "cachemon"]

theorem queryDriverState_reports_second : ∃ m', m'.failed = false ∧
    (queryDriverState asciiLower .stopped 3).Ends Manager.Answers { remaining := threeLoaded }
      (.ok .running) m' ∧
    ∃ state, (.ok .running : Except Unit ServiceState) = .ok state ∧
      (ServiceState.stopped ≠ .stopped → state = .stopped) ∧
      (ServiceState.stopped = .stopped → (state = .running ∨ state = .stopped) ∧
        (state = .running → IsLoaded asciiLower kDriverServiceName threeLoaded) ∧
        (m'.failed = false → IsLoaded asciiLower kDriverServiceName threeLoaded →
          state = .running)) := by
  have heval : ((queryDriverState asciiLower .stopped 3).eval Manager.answer
      { remaining := threeLoaded }).any
        (fun x => decide (x.1.toOption = some .running ∧ x.2.failed = false)) = true := by
    decide +kernel
  rw [Option.any_eq_true_iff_get] at heval
  obtain ⟨hsome, hfound⟩ := heval
  obtain ⟨⟨r, m'⟩, hx⟩ := Option.isSome_iff_exists.1 hsome
  rw [Option.get_of_eq_some _ hx] at hfound
  obtain ⟨hrunning, hfailed⟩ := of_decide_eq_true hfound
  have hr : r = .ok .running := by
    cases r with
    | ok state => exact congrArg Except.ok (Option.some.inj hrunning)
    | error e => cases hrunning
  subst hr
  have hends : (queryDriverState asciiLower .stopped 3).Ends Manager.Answers
      { remaining := threeLoaded } (.ok .running) m' := Prog.ends_of_eval answers_answer hx
  have hname : Terminates asciiLower kDriverServiceName := by
    have hall : kDriverServiceName.all (fun c => decide (asciiLower.towlower c ≠ 0)) = true := by
      decide
    exact fun c hc => of_decide_eq_true (List.all_eq_true.1 hall c hc)
  exact ⟨m', hfailed, hends, queryDriverState_reports hname le_rfl hends⟩

end SsdCache.LoadedFilters
