import Prodosfs.Exported

/-!
# Listing a directory again

A directory is opened once and may be listed several times: after `rewinddir` the next call of
`prodosfs_readdir` gets the offset 0 again. The callback does not look at the offset. It goes on
where the handle is, which no call ever moves back, and only the names of the directory itself and
of its parent are there every time.

## Main definitions

* `Listing` — one call of `prodosfs_readdir`
* `Ahead` — the entries a handle has still before it

## Main results

* `readdir_ahead` — what a call leaves to the ones after it
* `readdir_again_iff` — which calls list the whole directory
-/

namespace Prodosfs

/-- A call of `prodosfs_readdir` on a handle: the filler, and the error that is in the thread when
it is made. -/
structure Listing where
  filler : List Str → Str → Bool
  err : Err

/-- Make the call. What other requests do to the error in between is up to the next one. -/
def Listing.exec (m : Mount) (fuel : ℕ) (call : Listing) :
    Call Exn DirectoryHandle (ℤ × List Str) := fun h =>
  ((prodosfsReaddir m fuel call.filler (h, call.err)).1,
    (prodosfsReaddir m fuel call.filler (h, call.err)).2.1)

/-- The entries `rest` are before the handle, and are as many as the header promises. -/
structure Ahead (v : Volume) (fuel : ℕ) (key : BlockPtr) (h : DirectoryHandle)
    (rest : List EntryPtr) : Prop where
  remaining : Remaining v fuel key h rest
  count : h.entryIndex + rest.length = fileCount (v.headerOf key)

section
variable {v : Volume} {fuel : ℕ} {key : BlockPtr} {h : DirectoryHandle} {rest : List EntryPtr}

theorem Ahead.iterates (ha : Ahead v fuel key h rest) : Iterates v fuel h rest :=
  ha.remaining.iterates ha.count

theorem DirectoryAt.ahead {es : List EntryPtr} (hdir : DirectoryAt v key es)
    (hfuel : 14 * 65536 ≤ fuel) : Ahead v fuel key (.opened key) es where
  remaining := hdir.remaining hfuel
  count := by
    rw [hdir.count]
    exact Nat.zero_add _

/-- `NextEntry` takes the first of the entries. -/
theorem Ahead.nextEntry {e : EntryPtr} (ha : Ahead v fuel key h (e :: rest)) (err : Err) :
    ∃ h', DirectoryHandle.nextEntry v fuel (h, err) = (.ret (some e), (h', err)) ∧
      Ahead v fuel key h' rest := by
  have hcount := ha.count
  rw [List.length_cons] at hcount
  obtain ⟨h', hnext, hrest, hindex⟩ := nextEntry_returns err ha.remaining (by omega)
  exact ⟨h', hnext, hrest, by omega⟩

/-- At the end, the handle stays where it is. -/
theorem Ahead.nextEntry_end (ha : Ahead v fuel key h []) (err : Err) :
    DirectoryHandle.nextEntry v fuel (h, err) = (.ret none, (h, .endOfFile)) := by
  obtain ⟨p, ps, hc, -, -⟩ := ha.remaining
  exact Prodosfs.nextEntry_end hc.header ha.count fuel

/-! ### What a call leaves -/

variable {m : Mount} {filler : List Str → Str → Bool}

/-- Every round takes an entry, also the one in which the filler runs full. The induction is on the
rounds. -/
theorem readdirLoop_ahead : ∀ {rounds : ℕ} {names : List Str} {h : DirectoryHandle} {err : Err}
    {rest : List EntryPtr}, Ahead m.volume fuel key h rest →
    ∃ rest', Ahead m.volume fuel key
        (readdirLoop m fuel filler rounds names (h, err)).2.1 rest' ∧
      rest'.length ≤ rest.length ∧ (0 < rounds → rest ≠ [] → rest'.length < rest.length) := by
  intro rounds
  induction rounds with
  | zero =>
    intro names h err rest ha
    exact ⟨rest, ha, le_rfl, fun h0 => absurd h0 (Nat.lt_irrefl 0)⟩
  | succ rounds ih =>
    intro names h err rest ha
    rw [readdirLoop]
    cases rest with
    | nil =>
      rw [Call.bind_of_ret (ha.nextEntry_end err)]
      exact ⟨[], ha, le_rfl, fun _ hne => absurd rfl hne⟩
    | cons e rest =>
      obtain ⟨h', hnext, ha'⟩ := ha.nextEntry err
      rw [Call.bind_of_ret hnext]
      simp only [Call.ite_apply]
      split
      · exact ⟨rest, ha', Nat.le_succ _, fun _ _ => Nat.lt_succ_self _⟩
      · obtain ⟨rest', hrest, hle, -⟩ := ih ha'
        exact ⟨rest', hrest, Nat.le_succ_of_le hle, fun _ _ => Nat.lt_succ_of_le hle⟩

/-- What comes after the loop only looks at the error. -/
theorem readdir_snd (s : DirectoryHandle × Err) : (prodosfsReaddir m fuel filler s).2
    = (readdirLoop m fuel filler fuel (fill filler (fill filler [] (ascii ".")) (ascii "..")) s).2
    := by
  refine Call.bind_snd (fun names t => ?_) s
  rw [Call.get_bind_apply]
  simp only [Call.ite_apply, apply_ite Prod.snd, Call.pure_apply, ite_self]

/-- **A call leaves fewer entries to the next one**, if there are any. -/
theorem readdir_ahead (ha : Ahead m.volume fuel key h rest) (hfuel : 0 < fuel) (call : Listing) :
    ∃ rest', Ahead m.volume fuel key (call.exec m fuel h).2 rest' ∧
      rest'.length ≤ rest.length ∧ (rest ≠ [] → rest'.length < rest.length) := by
  have hexec : (call.exec m fuel h).2 = (readdirLoop m fuel call.filler fuel
      (fill call.filler (fill call.filler [] (ascii ".")) (ascii "..")) (h, call.err)).2.1 :=
    congrArg Prod.fst (readdir_snd (h, call.err))
  rw [hexec]
  exact (readdirLoop_ahead ha).imp fun rest' ⟨hrest, hle, hlt⟩ => ⟨hrest, hle, hlt hfuel⟩

/-- After any number of calls as many entries are left as before only if there were no calls, or no
entries. -/
theorem after_ahead (ha : Ahead m.volume fuel key h rest) (hfuel : 0 < fuel)
    (calls : List Listing) :
    ∃ rest', Ahead m.volume fuel key (Call.after (Listing.exec m fuel) h calls) rest' ∧
      (calls = [] ∨ rest = [] → rest' = rest) ∧
      (rest'.length = rest.length → calls = [] ∨ rest = []) := by
  cases calls with
  | nil => exact ⟨rest, ha, fun _ => rfl, fun _ => Or.inl rfl⟩
  | cons call calls =>
    obtain ⟨first, hfirst, hle, hlt⟩ := readdir_ahead ha hfuel call
    have hstep : ∀ (call : Listing) (h : DirectoryHandle),
        (∃ rest', Ahead m.volume fuel key h rest' ∧ rest'.length ≤ first.length) →
        ∃ rest', Ahead m.volume fuel key (call.exec m fuel h).2 rest' ∧
          rest'.length ≤ first.length := by
      rintro call h ⟨rest', hrest, hle'⟩
      obtain ⟨rest'', hrest', hle'', -⟩ := readdir_ahead hrest hfuel call
      exact ⟨rest'', hrest', hle''.trans hle'⟩
    obtain ⟨rest', hrest, hle'⟩ := Call.after_invariant hstep calls ⟨first, hfirst, le_rfl⟩
    refine ⟨rest', hrest, fun h => ?_, fun heq => ?_⟩
    · obtain rfl := h.resolve_left (by simp)
      exact List.length_eq_zero_iff.mp (Nat.le_zero.mp (hle'.trans hle))
    · refine Or.inr (by_contra fun hne => ?_)
      have hless := hlt hne
      omega

/-! ### What a call lists -/

/-- A filler that never runs full gets the entries that are left. -/
theorem readdir_of_ahead (ha : Ahead m.volume fuel key h rest) (hfuel : rest.length + 1 ≤ fuel)
    (err : Err) : (prodosfsReaddir m fuel (fun _ _ => false) (h, err)).1
      = .ret (0, ascii "." :: ascii ".." :: rest.map m.listedName) := by
  obtain ⟨h', hloop⟩ := readdirLoop_of_iterates ha.iterates err [ascii ".", ascii ".."] hfuel
  rw [prodosfsReaddir]
  exact congrArg Prod.fst ((Call.bind_of_ret hloop).trans rfl)

end

/-! ### Opening -/

section
variable {v : Volume} {fuel : ℕ}

theorem create_eq_opened {key : BlockPtr} {h : DirectoryHandle} {err err' : Err}
    (hcreate : DirectoryHandle.create v key err = (.ret h, err')) :
    v.IsKeyBlock key ∧ h = .opened key := by
  by_cases hkey : v.IsKeyBlock key
  · rw [create_of_isKeyBlock hkey] at hcreate
    cases hcreate
    exact ⟨hkey, rfl⟩
  · rw [DirectoryHandle.create, Call.bind_apply] at hcreate
    simp only [Call.withLocal, openBlock_of_not_isKeyBlock hkey] at hcreate
    cases hcreate

/-- A directory that has been opened is at its beginning. -/
theorem openDirectory_eq_opened {path : Str} {dh : DirectoryHandle} {err err' : Err}
    (hopen : openDirectory v fuel path err = (.ret (some dh), err')) :
    ∃ key, v.IsKeyBlock key ∧ dh = .opened key := by
  rw [openDirectory] at hopen
  split at hopen
  · obtain ⟨h, t, hcreate, hret⟩ := Call.bind_eq_ret_iff.mp hopen
    cases hret
    exact ⟨_, create_eq_opened hcreate⟩
  · obtain ⟨entry, t, -, hrest⟩ := Call.bind_eq_ret_iff.mp hopen
    cases entry with
    | none => cases hrest
    | some e =>
      simp only [Call.ite_apply] at hrest
      split at hrest
      · cases hrest
      · simp only [Call.bind_eq_ret_iff] at hrest
        obtain ⟨key, t', -, h, t'', hcreate, hret⟩ := hrest
        cases hret
        exact ⟨key, create_eq_opened hcreate⟩

theorem opendir_eq_opened {m : Mount} {path : Str} {dh : DirectoryHandle} {err err' : Err} {r : ℤ}
    (hopen : prodosfsOpendir m fuel path err = (.ret (r, some dh), err')) :
    ∃ key, m.volume.IsKeyBlock key ∧ dh = .opened key := by
  obtain ⟨dh', t, hdirectory, hrest⟩ := Call.bind_eq_ret_iff.mp hopen
  cases dh' with
  | none => cases hrest
  | some dh' =>
    cases hrest
    exact openDirectory_eq_opened hdirectory

end

/-- **The whole directory is listed by the first call on a handle, and by no other**, unless it is
empty. -/
theorem readdir_again_iff {m : Mount} {fuel : ℕ} {path : Str} {err err' : Err}
    {dh : DirectoryHandle} {key : BlockPtr} {es : List EntryPtr}
    (hopen : prodosfsOpendir m fuel path err = (.ret (0, some dh), err'))
    (hkey : dh.header = some key) (hdir : DirectoryAt m.volume key es)
    (hfuel : 14 * 65536 ≤ fuel) (calls : List Listing) (err'' : Err) :
    (prodosfsReaddir m fuel (fun _ _ => false)
        (Call.after (Listing.exec m fuel) dh calls, err'')).1
      = .ret (0, ascii "." :: ascii ".." :: es.map m.listedName) ↔ calls = [] ∨ es = [] := by
  obtain ⟨key', -, rfl⟩ := opendir_eq_opened hopen
  cases hkey
  have hlength := hdir.length_lt
  obtain ⟨rest, hrest, hsame, hfewer⟩ := after_ahead (hdir.ahead hfuel) (by omega) calls
  have hcount := hrest.count
  rw [hdir.count] at hcount
  rw [readdir_of_ahead hrest (by omega)]
  constructor
  · intro hnames
    have hnames' := congrArg List.length (Prod.mk.inj (Outcome.ret.inj hnames)).2
    exact hfewer (by simpa using hnames')
  · intro h
    rw [hsame h]

/-- The root directory of the small volume, listed once. -/
theorem readdir_again_iff_small :
    (prodosfsReaddir (smallMount .off) (14 * 65536) (fun _ _ => false)
        (.opened (.image 1024), .none)).1
      = .ret (0, [ascii ".", ascii "..", ascii "T", ascii "D"]) := by
  have hopen := openDirectory_root accepted_small (14 * 65536) .none
  exact (readdir_again_iff (m := smallMount .off) (Call.bind_of_ret hopen) rfl root_small le_rfl []
    .none).mpr (Or.inl rfl)

/-- The second listing of the same directory has only the directory itself and its parent. -/
theorem not_readdir_again_small :
    ¬ ∀ (m : Mount) (fuel : ℕ) (path : Str) (err err' : Err) (dh : DirectoryHandle)
      (key : BlockPtr) (es : List EntryPtr), m.volume.Accepted →
      prodosfsOpendir m fuel path err = (.ret (0, some dh), err') → dh.header = some key →
      DirectoryAt m.volume key es → 14 * 65536 ≤ fuel → ∀ (calls : List Listing) (err'' : Err),
      (prodosfsReaddir m fuel (fun _ _ => false)
          (Call.after (Listing.exec m fuel) dh calls, err'')).1
        = .ret (0, ascii "." :: ascii ".." :: es.map m.listedName) := by
  intro hclaim
  have hopen := openDirectory_root accepted_small (14 * 65536) .none
  have hnames := hclaim (smallMount .off) (14 * 65536) (ascii "/") .none .none
    (.opened (.image 1024)) _ _ accepted_small (Call.bind_of_ret hopen) rfl root_small le_rfl
    [⟨fun _ _ => false, .none⟩] .none
  obtain ⟨rest, hrest, -, hfewer⟩ :=
    after_ahead (m := smallMount .off) (root_small.ahead (le_refl (14 * 65536))) (by decide)
      [⟨fun _ _ => false, .none⟩]
  have hcount := hrest.count
  have htwo : fileCount (smallVolume.headerOf (.image 1024)) = 2 := by decide
  change _ = fileCount (smallVolume.headerOf (.image 1024)) at hcount
  rw [readdir_of_ahead hrest (by omega)] at hnames
  have hnames' := congrArg List.length (Prod.mk.inj (Outcome.ret.inj hnames)).2
  rcases hfewer (by simpa using hnames') with h | h
  · cases h
  · cases h

end Prodosfs
