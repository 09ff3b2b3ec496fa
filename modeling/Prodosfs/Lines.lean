import Prodosfs.Catalog

/-!
# The buffers of the catalogue

`Catalog` and `AsString` format into buffers on the stack without looking at their sizes. What keeps
the strings short is the format of the disk: names of at most fifteen bytes, numbers of 16 and 24
bits, days, months and years in a few bits each.

The title has a path in it, and nothing says how long a path may be. But `GetEntry` compares every
component with the name of an entry, and so a path that leads to a directory has short components.
There are two of them at most with something in front of them: `S_SplitPath` takes more of the path
for a component than there is up to the next slash, and the later the component, the more.

## Main results

* `length_cStr_le_of_getEntry` — a path that is found is short
* `catalog_lines_fit` — the lines of a catalogue fit their buffers
-/

namespace Prodosfs

/-! ### Components -/

/-- What matches a name is as long as a name. -/
theorem length_cStr_of_nameMatches {entry : Block} {name : Str}
    (h : Entry.nameMatches entry name) : (cStr name).length ≤ 15 := by
  rw [Entry.nameMatches, strcaseeq, beq_iff_eq] at h
  have hlen := congrArg List.length h
  rw [List.length_map, List.length_map] at hlen
  exact hlen.le.trans ((length_cStr_le _).trans (length_fileName_le entry))

/-- All the components of a path that is found have matched a name. The induction is on the bound
of the loop. -/
theorem length_cStr_of_getEntryLoop {v : Volume} {bound : ℕ} : ∀ {rounds : ℕ}
    {entry : Option EntryPtr} {path : List Str} {s t : DirectoryHandle × Err} {e : EntryPtr},
    getEntryLoop v bound rounds entry path s = (.ret (some e), t) →
    ∀ name ∈ path, (cStr name).length ≤ 15 := by
  intro rounds
  induction rounds with
  | zero =>
    intro entry path s t e h
    cases h
  | succ rounds ih =>
    intro entry path s t e h
    match entry, path with
    | _, [] => exact fun name hname => absurd hname List.not_mem_nil
    | none, name :: path => cases h
    | some found, name :: path =>
      rw [getEntryLoop, Call.ite_apply] at h
      split at h
      · rename_i hmatches
        refine List.forall_mem_cons.mpr ⟨length_cStr_of_nameMatches hmatches, ?_⟩
        rw [Call.ite_apply] at h
        split at h
        · rename_i hlast
          exact fun name hname => absurd (hlast ▸ hname) List.not_mem_nil
        · rw [Call.ite_apply] at h
          split at h
          · cases h
          · simp only [Call.bind_eq_ret_iff] at h
            obtain ⟨_, _, -, _, _, -, _, _, -, hrest⟩ := h
            exact ih hrest
      · obtain ⟨_, _, -, hrest⟩ := Call.bind_eq_ret_iff.mp h
        exact ih hrest

/-- Where a character is found. -/
theorem findFrom_eq_some {s : Str} {c : UInt8} {start pos : ℕ}
    (h : findFrom s c start = some pos) : start ≤ pos ∧ pos < s.length := by
  rw [findFrom, Option.map_eq_some_iff] at h
  obtain ⟨i, hi, rfl⟩ := h
  obtain ⟨hlt, -⟩ := List.idxOf?_eq_some_iff.mp hi
  rw [List.length_drop] at hlt
  omega

/-- A string that is entered before its first NUL. -/
theorem cStr_drop : ∀ {start : ℕ} {s : Str}, start ≤ (cStr s).length →
    cStr (s.drop start) = (cStr s).drop start := by
  intro start
  induction start with
  | zero => exact fun _ => rfl
  | succ start ih =>
    intro s h
    cases s with
    | nil => exact absurd h (Nat.not_succ_le_zero start)
    | cons c s =>
      by_cases hc : c = 0
      · rw [hc] at h
        exact absurd h (Nat.not_succ_le_zero start)
      · have hcons : cStr (c :: s) = c :: cStr s := List.takeWhile_cons_of_pos (by simpa using hc)
        rw [hcons] at h ⊢
        exact ih (Nat.le_of_succ_le_succ h)

/-- The C string in a part of a string that starts before its first NUL. -/
theorem length_cStr_substr {s : Str} {start : ℕ} (count : ℕ) (hstart : start ≤ (cStr s).length) :
    (cStr (substr s start count)).length = min count ((cStr s).length - start) := by
  have htake : cStr (substr s start count) = (cStr (s.drop start)).take count :=
    List.take_takeWhile.symm
  rw [htake, cStr_drop hstart, List.length_take, List.length_drop]

/-! ### Paths -/

/-- **Short components make a short path.** A component takes in as many bytes as there are up to
the slash at its end, from the start of the path, and so that slash is among the first seventeen
bytes or the component goes up to the end of the path. The induction is on the bound of the loop. -/
theorem length_cStr_of_splitLoop {s : Str} : ∀ {fuel start : ℕ}, start ≤ 17 → start ≤ s.length →
    s.length + 1 ≤ fuel + start → (∀ name ∈ splitLoop s fuel start, (cStr name).length ≤ 15) →
    (cStr s).length ≤ 32 := by
  intro fuel
  induction fuel with
  | zero =>
    intro start _ hle hfuel _
    omega
  | succ fuel ih =>
    intro start hstart hle hfuel hshort
    by_contra hlong
    have hinside : start ≤ (cStr s).length := by omega
    have hlen := length_cStr_le s
    rw [splitLoop] at hshort
    split at hshort
    · rename_i pos hpos
      obtain ⟨hfrom, hlt⟩ := findFrom_eq_some hpos
      obtain ⟨hfirst, hrest⟩ := List.forall_mem_cons.mp hshort
      rw [length_cStr_substr _ hinside] at hfirst
      exact hlong (@ih (pos + 1) (by omega) (by omega) (by omega) hrest)
    · have hlast := hshort _ (List.mem_singleton.mpr rfl)
      rw [length_cStr_substr _ hinside] at hlast
      omega

/-- A path that is found is short, up to its first NUL. -/
theorem length_cStr_of_getEntry {v : Volume} {fuel : ℕ} {pathname : Str} {err err' : Err}
    {e : EntryPtr} (h : getEntry v fuel pathname err = (.ret (some e), err')) :
    (cStr pathname).length ≤ 32 := by
  rw [getEntry, Call.ite_apply] at h
  split at h
  · rename_i hroot
    rw [hroot]
    decide
  · obtain ⟨⟨entry, handle⟩, t, hwalk, hret⟩ := Call.bind_eq_ret_iff.mp h
    cases hret
    have hloop := Call.withLocal_eq_ret_iff.mp hwalk
    simp only [Call.bind_eq_ret_iff] at hloop
    obtain ⟨_, _, -, _, _, -, hloop⟩ := hloop
    have hshort := length_cStr_of_getEntryLoop hloop
    rw [splitPath] at hshort
    split at hshort
    · rename_i hslash
      have hpos : 1 ≤ pathname.length := by
        by_contra hempty
        rw [List.getD_eq_default _ _ (by omega)] at hslash
        cases hslash
      exact length_cStr_of_splitLoop (by decide) hpos (by omega) hshort
    · exact length_cStr_of_splitLoop (by decide) (Nat.zero_le _) (by omega) hshort

/-! ### Lines -/

section
variable {v : Volume} {fuel : ℕ} {pathname : Str} {err err' : Err} {dh : DirectoryHandle}

/-- A directory that is opened has a short path. -/
theorem length_cStr_of_openDirectory
    (h : openDirectory v fuel pathname err = (.ret (some dh), err')) :
    (cStr pathname).length ≤ 32 := by
  rw [openDirectory, Call.ite_apply] at h
  split at h
  · rename_i hroot
    rw [hroot]
    decide
  · obtain ⟨entry, t, hentry, hrest⟩ := Call.bind_eq_ret_iff.mp h
    cases entry with
    | none => cases hrest
    | some e => exact length_cStr_of_getEntry hentry

/-- **The lines of a catalogue fit their buffers,** each with its NUL: the title of any directory
that `OpenDirectory` accepts, the columns, the line of any entry with its `subtype` and its two
times, and the totals, whatever `CountBlocksUsed` returns. -/
theorem catalog_lines_fit (hv : v.Accepted)
    (hopen : openDirectory v fuel (parentPath pathname) err = (.ret (some dh), err')) :
    (titleLine (Entry.fileName v.header) (parentPath pathname)).length + 1 ≤ 128 ∧
      columnsLine.length + 1 ≤ 128 ∧
      (∀ entry : Block, (entryLine entry).length + 1 ≤ 128 ∧ (subtype entry).length + 1 ≤ 16 ∧
        (Entry.lastModTimestamp entry).asString.length + 1 ≤ 64 ∧
        (Entry.creationTimestamp entry).asString.length + 1 ≤ 64) ∧
      ∀ (used : ℤ) (err₁ err₂ : Err), v.countBlocksUsed err₁ = (.ret used, err₂) →
        (totalsLine v.totalBlocks used).length + 1 ≤ 128 := by
  have htitle := length_titleLine_le v.header (parentPath pathname)
  have hpath := length_cStr_of_openDirectory hopen
  refine ⟨?_, by decide, fun entry => ⟨length_entryLine_lt entry,
    Nat.succ_le_succ ((length_subtype_le entry).trans (by decide)),
    Nat.succ_le_succ ((length_asString_le _).trans (by decide)),
    Nat.succ_le_succ ((length_asString_le _).trans (by decide))⟩, fun used err₁ err₂ hused => ?_⟩
  · split at htitle <;> omega
  · have hbitmap := bitmapInside_of_countBlocksUsed hv hused
    rw [countBlocksUsed_eq hv hbitmap] at hused
    cases hused
    obtain ⟨hlo, hhi⟩ := balance_bounds v.bitmap v.disk.numBlocks
    have hN := hv.numBlocks_lt
    exact length_totalsLine_lt (leRead16_lt _) (by omega) (by omega)

/-- The subdirectory of the small volume is accepted, and its lines fit. -/
theorem catalog_lines_fit_small : ∃ dh err',
    openDirectory smallVolume 60 (parentPath (ascii "/D/.CATALOG")) .none
      = (.ret (some dh), err') ∧
    (titleLine (Entry.fileName smallVolume.header)
      (parentPath (ascii "/D/.CATALOG"))).length + 1 ≤ 128 ∧
    (entryLine (smallVolume.entry ⟨.image 2048, 1⟩)).length + 1 ≤ 128 ∧
    (totalsLine smallVolume.totalBlocks 16).length + 1 ≤ 128 := by
  have hopen : openDirectory smallVolume 60 (parentPath (ascii "/D/.CATALOG")) .none
      = (.ret (some (.opened (.image 2048))), .none) := by decide +kernel
  have hused : smallVolume.countBlocksUsed Err.none = (.ret 16, .none) := by decide +kernel
  obtain ⟨htitle, -, hentry, htotals⟩ := catalog_lines_fit accepted_small hopen
  exact ⟨_, _, hopen, htitle, (hentry _).1, htotals _ _ _ hused⟩

end

end Prodosfs
