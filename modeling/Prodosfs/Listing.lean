import Prodosfs.Directory

/-!
# Listing a directory

What a caller sees who opens a directory and calls `NextEntry` again and again, whatever the calls
come to.

The iteration ends by count. Where the header promises as many entries as there are active slots,
or fewer, that many calls return an entry and every later one says that the end has been reached.
Where it promises more, the calls that should return the missing ones throw — every one of them,
since a call that throws leaves the cursor on the last place.

## Main definitions

* `Iterates` — calls that yield some entries, and then the end

## Main results

* `nextEntry_nth` — the outcome of every call
-/

namespace Prodosfs

section
variable {v : Volume} {key : BlockPtr} {rest : List BlockPtr} {fuel : ℕ}

/-- Calls that find an entry. The induction is on the number of calls made. -/
theorem nth_returns : ∀ {k : ℕ} {h : DirectoryHandle} {es : List EntryPtr} (err : Err),
    Remaining v fuel key h es → h.entryIndex + k < fileCount (v.headerOf key) →
    ∀ (hk : k < es.length),
      (Call.nth (DirectoryHandle.nextEntry v fuel) (h, err) k).1 = .ret (some es[k]) := by
  intro k
  induction k with
  | zero =>
    intro h es err hr hcount hk
    cases es with
    | nil => exact absurd hk (Nat.lt_irrefl 0)
    | cons e es =>
      obtain ⟨h', hnext, -, -⟩ := nextEntry_returns err hr (by omega)
      rw [Call.nth_zero, hnext]
      rfl
  | succ k ih =>
    intro h es err hr hcount hk
    cases es with
    | nil => exact absurd hk (Nat.not_lt_zero _)
    | cons e es =>
      obtain ⟨h', hnext, hr', hindex⟩ := nextEntry_returns err hr (by omega)
      rw [Call.nth_succ', hnext]
      exact ih err hr' (by omega) (Nat.lt_of_succ_lt_succ hk)

/-- Calls after the last entry the header promises. -/
theorem nth_end : ∀ {k : ℕ} {h : DirectoryHandle} {es : List EntryPtr} (err : Err),
    Remaining v fuel key h es → h.entryIndex ≤ fileCount (v.headerOf key) →
    fileCount (v.headerOf key) ≤ h.entryIndex + es.length →
    fileCount (v.headerOf key) ≤ h.entryIndex + k →
      (Call.nth (DirectoryHandle.nextEntry v fuel) (h, err) k).1 = .ret none ∧
      (Call.nth (DirectoryHandle.nextEntry v fuel) (h, err) k).2.2 = .endOfFile := by
  intro k
  induction k with
  | zero =>
    intro h es err hr hle _ hcount
    obtain ⟨_, _, hc, -, -⟩ := hr
    rw [Call.nth_zero, nextEntry_end hc.header (by omega)]
    exact ⟨rfl, rfl⟩
  | succ k ih =>
    intro h es err hr hle hlen hcount
    by_cases hend : h.entryIndex = fileCount (v.headerOf key)
    · obtain ⟨_, _, hc, -, -⟩ := id hr
      rw [Call.nth_succ', nextEntry_end hc.header hend]
      exact ih _ hr hle hlen (by omega)
    · cases es with
      | nil => exact absurd hlen (by simp; omega)
      | cons e es =>
        obtain ⟨h', hnext, hr', hindex⟩ := nextEntry_returns err hr hend
        rw [List.length_cons] at hlen
        rw [Call.nth_succ', hnext]
        exact ih err hr' (by omega) (by omega) (by omega)

/-- Calls for entries the header promises and the directory does not have. -/
theorem nth_throws : ∀ {k : ℕ} {h : DirectoryHandle} {es : List EntryPtr} (err : Err),
    Remaining v fuel key h es → h.entryIndex + es.length < fileCount (v.headerOf key) →
    es.length ≤ k →
      (Call.nth (DirectoryHandle.nextEntry v fuel) (h, err) k).1
        = .throw (.runtimeError "no more directory blocks") := by
  intro k
  induction k with
  | zero =>
    intro h es err hr hcount hk
    obtain rfl := List.length_eq_zero_iff.mp (Nat.le_zero.mp hk)
    obtain ⟨h', hnext, -, -⟩ := nextEntry_throws err hr (by omega)
    rw [Call.nth_zero, hnext]
  | succ k ih =>
    intro h es err hr hcount hk
    cases es with
    | nil =>
      obtain ⟨h', hnext, hr', hindex⟩ := nextEntry_throws err hr (by omega)
      rw [Call.nth_succ', hnext]
      exact ih err hr' (by omega) (Nat.zero_le k)
    | cons e es =>
      rw [List.length_cons] at hcount hk
      obtain ⟨h', hnext, hr', hindex⟩ := nextEntry_returns err hr (by omega)
      rw [Call.nth_succ', hnext]
      exact ih err hr' (by omega) (by omega)

/-- Every active entry is at one place only. -/
theorem nodup_activeSlots (hc : BlockChain v key rest) : (activeSlots v key rest).Nodup := by
  have hinj : Function.Injective EntryPtr.ofPlace := by
    rintro ⟨b, i⟩ ⟨c, j⟩ h
    cases h
    rfl
  rw [← activePlaces_opened hc]
  exact ((hc.linked.places (by decide)).nodup.map hinj).filter _

/-- **The outcome of every call.** Counted from `0`, call `k` returns active entry `k` as long as
there is one and the header promises it; the calls after the promised ones report the end; and the
calls that throw are those for promised entries that are not there, and all after them. -/
theorem nextEntry_nth (hkey : v.IsKeyBlock key) (hc : BlockChain v key rest)
    (hfuel : 14 * (rest.length + 1) ≤ fuel) (err : Err) :
    ∃ h, DirectoryHandle.create v key err = (.ret h, err) ∧ (activeSlots v key rest).Nodup ∧
      ∀ k,
        (k < fileCount (v.headerOf key) → ∀ hk : k < (activeSlots v key rest).length,
          (Call.nth (DirectoryHandle.nextEntry v fuel) (h, err) k).1
            = .ret (some (activeSlots v key rest)[k])) ∧
        (fileCount (v.headerOf key) ≤ (activeSlots v key rest).length →
          fileCount (v.headerOf key) ≤ k →
          (Call.nth (DirectoryHandle.nextEntry v fuel) (h, err) k).1 = .ret none ∧
          (Call.nth (DirectoryHandle.nextEntry v fuel) (h, err) k).2.2 = .endOfFile) ∧
        ((∃ e, (Call.nth (DirectoryHandle.nextEntry v fuel) (h, err) k).1 = .throw e) ↔
          (activeSlots v key rest).length < fileCount (v.headerOf key) ∧
            (activeSlots v key rest).length ≤ k) := by
  have hr := hc.remaining hfuel
  have hopened : (DirectoryHandle.opened key).entryIndex = 0 := rfl
  refine ⟨_, create_of_isKeyBlock hkey err, nodup_activeSlots hc, fun k => ⟨?_, ?_, ?_, ?_⟩⟩
  · intro hcount hk
    exact nth_returns err hr (by omega) hk
  · intro hlen hcount
    exact nth_end err hr (by omega) (by omega) (by omega)
  · rintro ⟨e, hthrow⟩
    by_contra hnot
    rcases Nat.lt_or_ge k (fileCount (v.headerOf key)) with hlt | hge
    · rw [nth_returns err hr (by omega) (by omega)] at hthrow
      cases hthrow
    · rw [(nth_end err hr (by omega) (by omega) (by omega)).1] at hthrow
      cases hthrow
  · rintro ⟨hlen, hk⟩
    exact ⟨_, nth_throws err hr (by omega) hk⟩

end

/-! ### Iterations that come to an end -/

/-- Calls of `NextEntry` on the handle yield `es`, and then the end. -/
inductive Iterates (v : Volume) (fuel : ℕ) : DirectoryHandle → List EntryPtr → Prop
  | nil {h : DirectoryHandle} {key : BlockPtr} (header : h.header = some key)
      (count : h.entryIndex = fileCount (v.headerOf key)) : Iterates v fuel h []
  | cons {h h' : DirectoryHandle} {e : EntryPtr} {es : List EntryPtr}
      (head : ∀ err, DirectoryHandle.nextEntry v fuel (h, err) = (.ret (some e), (h', err)))
      (tail : Iterates v fuel h' es) : Iterates v fuel h (e :: es)

section
variable {v : Volume} {fuel : ℕ} {h : DirectoryHandle} {es es' : List EntryPtr} {key : BlockPtr}

/-- A directory whose header promises just the entries it has. The induction is on these. -/
theorem Remaining.iterates : ∀ {es : List EntryPtr} {h : DirectoryHandle},
    Remaining v fuel key h es → h.entryIndex + es.length = fileCount (v.headerOf key) →
    Iterates v fuel h es := by
  intro es
  induction es with
  | nil =>
    intro h hr hcount
    obtain ⟨_, _, hc, -, -⟩ := hr
    exact .nil hc.header (by simpa using hcount)
  | cons e es ih =>
    intro h hr hcount
    rw [List.length_cons] at hcount
    obtain ⟨h', hnext, hr', hindex⟩ := nextEntry_returns .none hr (by omega)
    obtain ⟨_, hs, hnext'⟩ := nextEntry_some hnext
    cases hs
    exact .cons hnext' (ih hr' (by omega))

end

/-! ### A small volume -/

/-- A header with a name of one letter, at an address. -/
def headerBytes (a : ℕ) (storageType letter fileCount totalBlocks : UInt8) : List (ℕ × UInt8) :=
  [(a, storageType <<< 4 ||| 1), (a + 1, letter), (a + 31, 39), (a + 32, 13), (a + 33, fileCount),
    (a + 37, totalBlocks)]

/-- An entry with a name of one letter, at an address. -/
def entryBytes (a : ℕ) (storageType letter fileType keyPointer eof : UInt8) : List (ℕ × UInt8) :=
  [(a, storageType <<< 4 ||| 1), (a + 1, letter), (a + 16, fileType), (a + 17, keyPointer),
    (a + 21, eof)]

/-- The volume `A`: a text file `T` of three bytes, and a directory `D` in the very last slot of
the second root block, with a directory `E` in it and a file `F` in that. -/
def smallImage : Image :=
  .sparse 8192 (headerBytes 1028 0xF 65 2 16 ++ [(1026, 3)] ++ entryBytes 1106 0x1 84 0x04 6 3 ++
    entryBytes 2008 0xD 68 0x0F 4 0 ++ headerBytes 2052 0xE 68 1 0 ++
    entryBytes 2091 0xD 69 0x0F 5 0 ++ headerBytes 2564 0xE 69 1 0 ++
    entryBytes 2603 0x1 70 0x04 7 1 ++ [(3072, 200), (3073, 201), (3074, 141)])

def smallVolume : Volume := ⟨Disk.ofImage smallImage fun _ => 0⟩

theorem accepted_small : smallVolume.Accepted := by decide

theorem blockChain_small : BlockChain smallVolume (.image 1024) [.image 1536] where
  linked := .cons (by decide) (.last (by decide))
  inRange := by decide
  entries := by decide
  trailing := by decide

/-- The root directory of the small volume. -/
theorem nextEntry_nth_small :
    ∃ h, DirectoryHandle.create smallVolume (.image 1024) .none = (.ret h, .none) ∧
      (Call.nth (DirectoryHandle.nextEntry smallVolume 28) (h, .none) 0).1
        = .ret (some ⟨.image 1024, 2⟩) ∧
      (Call.nth (DirectoryHandle.nextEntry smallVolume 28) (h, .none) 1).1
        = .ret (some ⟨.image 1536, 12⟩) ∧
      (Call.nth (DirectoryHandle.nextEntry smallVolume 28) (h, .none) 2).1 = .ret none := by
  have hslots : activeSlots smallVolume (.image 1024) [.image 1536]
      = [⟨.image 1024, 2⟩, ⟨.image 1536, 12⟩] := by decide
  have hcount : fileCount (smallVolume.headerOf (.image 1024)) = 2 := by decide
  have hkey : smallVolume.IsKeyBlock (.image 1024) := Or.inl (by decide)
  have hfuel : 14 * ([BlockPtr.image 1536].length + 1) ≤ 28 := by decide
  obtain ⟨h, hcreate, -, hcalls⟩ := nextEntry_nth hkey blockChain_small hfuel .none
  simp only [hslots, hcount] at hcalls
  exact ⟨h, hcreate, (hcalls 0).1 (by decide) (by decide), (hcalls 1).1 (by decide) (by decide),
    ((hcalls 2).2.1 (by decide) (by decide)).1⟩

/-- A volume whose header promises two entries it does not have. -/
def overstatedVolume : Volume :=
  ⟨Disk.ofImage (.sparse 4096 (headerBytes 1028 0xF 65 2 8)) fun _ => 0⟩

/-- Not only the first call for a missing entry throws. -/
theorem not_nextEntry_nth_overstated :
    ¬ ∀ (v : Volume) (key : BlockPtr) (rest : List BlockPtr) (fuel : ℕ) (err : Err),
      v.IsKeyBlock key → BlockChain v key rest → 14 * (rest.length + 1) ≤ fuel →
      ∃ h, DirectoryHandle.create v key err = (.ret h, err) ∧
        ∀ k, ((∃ e, (Call.nth (DirectoryHandle.nextEntry v fuel) (h, err) k).1 = .throw e) ↔
          k < fileCount (v.headerOf key) ∧ k = (activeSlots v key rest).length) := by
  intro hclaim
  have hkey : overstatedVolume.IsKeyBlock (.image 1024) := Or.inl (by decide)
  have hc : BlockChain overstatedVolume (.image 1024) [] :=
    ⟨.last (by decide), by decide, by decide, by decide⟩
  have hslots : activeSlots overstatedVolume (.image 1024) [] = [] := by decide
  have hcount : fileCount (overstatedVolume.headerOf (.image 1024)) = 2 := by decide
  obtain ⟨h, hcreate, hcalls⟩ := hclaim _ _ _ 14 .none hkey hc (by decide)
  rw [create_of_isKeyBlock hkey] at hcreate
  cases hcreate
  have hr : Remaining overstatedVolume 14 (.image 1024) (.opened (.image 1024)) [] :=
    hslots ▸ hc.remaining (by decide)
  have hthrows := nth_throws (k := 1) .none hr (by rw [hcount]; decide) (by decide)
  obtain ⟨-, hlen⟩ := (hcalls 1).mp ⟨_, hthrows⟩
  rw [hslots] at hlen
  exact absurd hlen (by decide)

end Prodosfs
