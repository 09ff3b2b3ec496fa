import Prodosfs.Entry
import Prodosfs.General.Linked

/-!
# Directory handles

`directory_handle_t` walks over the entries of a directory. Its cursor is a block and a slot; it is
moved on to the next slot as soon as an entry has been returned, and it steps over inactive slots
at the beginning of the next call.

The bound of a step is `entries_per_block` of the header, which is 13, so every block is left
through slot 13 — a slot that is not there. Its first byte is the last byte of the block, and the
rest of it lies in the next one.

The loop over inactive slots may go round forever when the blocks of a directory form a cycle; it
is given a bound here, and `timeout` is what becomes of a call that exceeds it.

## Main definitions

* `DirectoryHandle.nextEntry`
* `BlockChain` — a directory whose blocks are linked, in range, and 13 entries each
* `activeSlots` — what such a directory contains

## Main results

* `skipInactive_apply`, `skipInactive_throws` — stepping over inactive slots
* `nextEntry_returns`, `nextEntry_throws`, `nextEntry_end` — the three outcomes of `NextEntry`
-/

namespace Prodosfs

/-- `directory_handle_t`. The header is known by the block it is in. -/
structure DirectoryHandle where
  header : Option BlockPtr
  block : Option BlockPtr
  blockIndex : ℕ
  entryIndex : ℕ
  deriving DecidableEq

/-- A header, from the pointer to its block. -/
def Volume.headerOf (v : Volume) (key : BlockPtr) : Block := v.entry ⟨key, 0⟩

/-- The field `next` of a block. -/
def Volume.nextPointer (v : Volume) (b : BlockPtr) : ℕ := leRead16 fun k => v.deref b (2 + k)

namespace DirectoryHandle

variable (v : Volume)

/-- `_Open` -/
def openBlock (keyBlock : BlockPtr) : Call Exn (DirectoryHandle × Err) Unit :=
  if Entry.storageType (v.headerOf keyBlock) ≠ storageTypeVolumeBlock ∧
      Entry.storageType (v.headerOf keyBlock) ≠ storageTypeSubdirBlock then
    Call.throw (.runtimeError "not a directory key block")
  else modify fun s => (⟨some keyBlock, some keyBlock, 1, 0⟩, s.2)

/-- The constructor. -/
def create (keyBlock : BlockPtr) : Call Exn Err DirectoryHandle := do
  let (_, handle) ← Call.withLocal ⟨none, none, 1, 0⟩ (openBlock v keyBlock)
  pure handle

/-- `Close` -/
def close : Call Exn (DirectoryHandle × Err) Unit := modify fun s => (⟨none, none, 0, 0⟩, s.2)

/-- `_Next` -/
def next : Call Exn (DirectoryHandle × Err) Unit := do
  let (h, err) ← get
  match h.header, h.block with
  | some header, some block =>
    if h.blockIndex < (entriesPerBlock (v.headerOf header)).toNat then
      set ({ h with blockIndex := h.blockIndex + 1 }, err)
    else if v.nextPointer block = 0 then Call.throw (.runtimeError "no more directory blocks")
    else
      let block ← v.getBlock (v.nextPointer block)
      set ({ h with block := some block, blockIndex := 0 }, err)
  | _, _ => Call.fault

/-- The loop of `NextEntry` over inactive slots. -/
def skipInactive : ℕ → Call Exn (DirectoryHandle × Err) EntryPtr
  | 0 => Call.timeout
  | fuel + 1 => do
    let (h, _) ← get
    match h.block with
    | none => Call.fault
    | some block =>
      if Entry.isInactive (v.entry ⟨block, h.blockIndex⟩) then do
        next v
        skipInactive fuel
      else pure ⟨block, h.blockIndex⟩

/-- `NextEntry` -/
def nextEntry (fuel : ℕ) : Call Exn (DirectoryHandle × Err) (Option EntryPtr) := do
  let (h, _) ← get
  match h.header with
  | none => Call.fault
  | some header =>
    if h.entryIndex = fileCount (v.headerOf header) then
      set (h, Err.endOfFile)
      pure none
    else
      let entry ← skipInactive v fuel
      modify fun s => ({ s.1 with entryIndex := s.1.entryIndex + 1 }, s.2)
      next v
      pure (some entry)

end DirectoryHandle

/-! ### The error is not looked at

`NextEntry` sets the thread's error when it has come to the end, and leaves it alone otherwise.
What it does never depends on it. -/

section
variable {v : Volume}

theorem frames_next (h : DirectoryHandle) : (DirectoryHandle.next v).Frames h := by
  cases hheader : h.header with
  | none =>
    refine ⟨.fault, h, fun err => ?_⟩
    simp [DirectoryHandle.next, hheader]
  | some header =>
    cases hblock : h.block with
    | none =>
      refine ⟨.fault, h, fun err => ?_⟩
      simp [DirectoryHandle.next, hheader, hblock]
    | some block =>
      by_cases hlt : h.blockIndex < (entriesPerBlock (v.headerOf header)).toNat
      · refine ⟨.ret (), { h with blockIndex := h.blockIndex + 1 }, fun err => ?_⟩
        simp [DirectoryHandle.next, hheader, hblock, hlt]
      by_cases h0 : v.nextPointer block = 0
      · refine ⟨.throw (.runtimeError "no more directory blocks"), h, fun err => ?_⟩
        simp [DirectoryHandle.next, hheader, hblock, hlt, h0]
      rcases Nat.lt_or_ge (v.nextPointer block) v.disk.numBlocks with hin | hout
      · refine ⟨.ret (), ⟨h.header, some (Volume.blockPtr (v.nextPointer block)), 0, h.entryIndex⟩,
          fun err => ?_⟩
        simp [DirectoryHandle.next, hheader, hblock, hlt, h0,
          Call.bind_of_ret (Volume.getBlock_of_lt (Or.inr hin) _)]
      · refine ⟨.throw (.runtimeError "invalid block number"), h, fun err => ?_⟩
        simp [DirectoryHandle.next, hheader, hblock, hlt, h0,
          Call.bind_of_throw (Volume.getBlock_of_ge h0 hout _)]

theorem frames_skipInactive (fuel : ℕ) :
    ∀ h : DirectoryHandle, (DirectoryHandle.skipInactive v fuel).Frames h := by
  induction fuel with
  | zero =>
    intro h
    exact ⟨.timeout, h, fun _ => rfl⟩
  | succ fuel ih =>
    intro h
    cases hblock : h.block with
    | none =>
      refine ⟨.fault, h, fun err => ?_⟩
      simp [DirectoryHandle.skipInactive, hblock]
    | some block =>
      by_cases hinactive : Entry.isInactive (v.entry ⟨block, h.blockIndex⟩)
      · obtain ⟨o, h', hrest⟩ := (frames_next (v := v) h).bind fun _ => ih
        refine ⟨o, h', fun err => ?_⟩
        rw [← hrest err, DirectoryHandle.skipInactive, Call.get_bind_apply]
        simp only [hblock, Call.ite_apply, if_pos hinactive]
      · refine ⟨.ret ⟨block, h.blockIndex⟩, h, fun err => ?_⟩
        simp [DirectoryHandle.skipInactive, hblock, hinactive]

end

/-! ### What a directory contains -/

/-- The block after a block, if there is one. -/
def Volume.nextBlock (v : Volume) (b : BlockPtr) : Option BlockPtr :=
  if v.nextPointer b = 0 then none else some (blockPtr (v.nextPointer b))

/-- A directory whose blocks are `key` and `rest`: linked up to a last one, with pointers in range,
13 entries a block, and nothing in the byte behind the last entry. -/
structure BlockChain (v : Volume) (key : BlockPtr) (rest : List BlockPtr) : Prop where
  linked : Linked v.nextBlock key rest
  inRange : ∀ b ∈ key :: rest, v.nextPointer b < v.disk.numBlocks
  entries : entriesPerBlock (v.headerOf key) = 13
  trailing : ∀ b ∈ key :: rest, v.deref b 511 >>> 4 = 0

/-- The slots of a block from `j` on. -/
def slotsOf (b : BlockPtr) (j : ℕ) : List EntryPtr := (List.range' j (13 - j)).map fun i => ⟨b, i⟩

/-- An entry that is not inactive. -/
def Volume.active (v : Volume) (e : EntryPtr) : Bool := !Entry.isInactive (v.entry e)

/-- The active entries of a directory, in chain order. The first slot is the header's. -/
def activeSlots (v : Volume) (key : BlockPtr) (rest : List BlockPtr) : List EntryPtr :=
  (slotsOf key 1 ++ rest.flatMap fun b => slotsOf b 0).filter v.active

/-! ### The cursor -/

/-- A place of the cursor, as a pointer. -/
def EntryPtr.ofPlace (p : BlockPtr × ℕ) : EntryPtr := ⟨p.1, p.2⟩

/-- The active entries among some places. -/
def activePlaces (v : Volume) (ps : List (BlockPtr × ℕ)) : List EntryPtr :=
  (ps.map EntryPtr.ofPlace).filter v.active

/-- The handle with its cursor moved. -/
def DirectoryHandle.moved (h : DirectoryHandle) (p : BlockPtr × ℕ) : DirectoryHandle :=
  { h with block := some p.1, blockIndex := p.2 }

/-- The handle with one more entry counted. -/
def DirectoryHandle.counted (h : DirectoryHandle) : DirectoryHandle :=
  { h with entryIndex := h.entryIndex + 1 }

/-- The cursor of `h` is at `p`, and the places after it are `ps`. -/
structure Cursor (v : Volume) (key : BlockPtr) (h : DirectoryHandle) (p : BlockPtr × ℕ)
    (ps : List (BlockPtr × ℕ)) : Prop where
  header : h.header = some key
  block : h.block = some p.1
  index : h.blockIndex = p.2
  entries : entriesPerBlock (v.headerOf key) = 13
  linked : Linked (Linked.placeNext v.nextBlock 13) p ps
  inRange : ∀ q ∈ p :: ps, v.nextPointer q.1 < v.disk.numBlocks
  /-- Nothing is ever found in slot 13. -/
  lt_of_active : ∀ q ∈ p :: ps, v.active (.ofPlace q) → q.2 < 13

/-- The entries that are still to come are `es`. -/
def Remaining (v : Volume) (fuel : ℕ) (key : BlockPtr) (h : DirectoryHandle) (es : List EntryPtr) :
    Prop :=
  ∃ p ps, Cursor v key h p ps ∧ (p :: ps).length ≤ fuel ∧ activePlaces v (p :: ps) = es

section
variable {v : Volume} {key : BlockPtr} {h : DirectoryHandle} {p q : BlockPtr × ℕ}
  {ps : List (BlockPtr × ℕ)} {err : Err}

theorem Cursor.moved (hc : Cursor v key h p (q :: ps)) : Cursor v key (h.moved q) q ps where
  header := hc.header
  block := rfl
  index := rfl
  entries := hc.entries
  linked := by
    cases hc.linked with
    | cons _ tail => exact tail
  inRange := fun r hr => hc.inRange r (List.mem_cons_of_mem _ hr)
  lt_of_active := fun r hr => hc.lt_of_active r (List.mem_cons_of_mem _ hr)

theorem Cursor.counted (hc : Cursor v key h p ps) : Cursor v key h.counted p ps where
  header := hc.header
  block := hc.block
  index := hc.index
  entries := hc.entries
  linked := hc.linked
  inRange := hc.inRange
  lt_of_active := hc.lt_of_active

/-- The cursor has somewhere to go from an active entry. -/
theorem Cursor.ne_nil_of_active (hc : Cursor v key h p ps) (hp : v.active (.ofPlace p)) :
    ps ≠ [] := by
  have hlt := hc.lt_of_active p (List.mem_cons_self ..) hp
  rintro rfl
  cases hc.linked with
  | last hlast =>
    rw [Linked.placeNext, if_pos hlt] at hlast
    cases hlast

theorem Cursor.moved_self (hc : Cursor v key h p ps) : h.moved p = h := by
  rw [DirectoryHandle.moved, ← hc.block, ← hc.index]

/-- `_Next` moves the cursor to the next place. -/
theorem Cursor.next_apply (hc : Cursor v key h p (q :: ps)) :
    DirectoryHandle.next v (h, err) = (.ret (), (h.moved q, err)) := by
  have hnext : Linked.placeNext v.nextBlock 13 p = some q := by
    cases hc.linked with
    | cons hnext _ => exact hnext
  have hp := hc.inRange p (List.mem_cons_self ..)
  rw [DirectoryHandle.next, Call.get_bind_apply]
  simp only [hc.header, hc.block, hc.index, hc.entries]
  rw [Linked.placeNext] at hnext
  by_cases hlt : p.2 < 13
  · rw [if_pos hlt] at hnext
    cases hnext
    rw [Call.ite_apply, if_pos (by exact hlt), DirectoryHandle.moved, hc.header]
    rfl
  · rw [if_neg hlt, Volume.nextBlock] at hnext
    by_cases h0 : v.nextPointer p.1 = 0
    · rw [if_pos h0] at hnext
      cases hnext
    · rw [if_neg h0] at hnext
      cases hnext
      rw [Call.ite_apply, if_neg (by exact hlt), Call.ite_apply, if_neg h0,
        Call.bind_of_ret (Volume.getBlock_of_lt (Or.inr hp) _), DirectoryHandle.moved, hc.header]
      rfl

/-- At the last place, `_Next` throws and leaves the handle alone. -/
theorem Cursor.next_throws (hc : Cursor v key h p []) :
    DirectoryHandle.next v (h, err)
      = (.throw (.runtimeError "no more directory blocks"), (h, err)) := by
  have hlast : Linked.placeNext v.nextBlock 13 p = none := by
    cases hc.linked with
    | last hlast => exact hlast
  rw [DirectoryHandle.next, Call.get_bind_apply]
  simp only [hc.header, hc.block, hc.index, hc.entries]
  rw [Linked.placeNext] at hlast
  by_cases hlt : p.2 < 13
  · rw [if_pos hlt] at hlast
    cases hlast
  · rw [if_neg hlt, Volume.nextBlock] at hlast
    by_cases h0 : v.nextPointer p.1 = 0
    · rw [Call.ite_apply, if_neg (by exact hlt), Call.ite_apply, if_pos h0]
      rfl
    · rw [if_neg h0] at hlast
      cases hlast

/-! ### Stepping over inactive slots -/

theorem activePlaces_cons_of_active (hp : v.active (.ofPlace p)) :
    activePlaces v (p :: ps) = .ofPlace p :: activePlaces v ps :=
  List.filter_cons_of_pos hp

theorem activePlaces_cons_of_inactive (hp : v.active (.ofPlace p) = false) :
    activePlaces v (p :: ps) = activePlaces v ps :=
  List.filter_cons_of_neg (by simp [hp])

/-- One round of the loop. -/
theorem Cursor.skipInactive_succ (hc : Cursor v key h p ps) (fuel : ℕ) :
    DirectoryHandle.skipInactive v (fuel + 1) (h, err) =
      if v.active (.ofPlace p) then (.ret (.ofPlace p), (h, err))
      else (do
        DirectoryHandle.next v
        DirectoryHandle.skipInactive v fuel : Call Exn (DirectoryHandle × Err) EntryPtr)
        (h, err) := by
  rw [DirectoryHandle.skipInactive, Call.get_bind_apply]
  simp only [hc.block, hc.index]
  rw [Call.ite_apply, Volume.active, EntryPtr.ofPlace]
  cases hactive : Entry.isInactive (v.entry ⟨p.1, p.2⟩) with
  | true => simp
  | false => simp

/-- The loop stops at the first active entry. The induction is on the places left. -/
theorem skipInactive_apply (err : Err) : ∀ {ps : List (BlockPtr × ℕ)} {h : DirectoryHandle}
    {p : BlockPtr × ℕ} {fuel : ℕ} {e : EntryPtr} {es : List EntryPtr}, Cursor v key h p ps →
    (p :: ps).length ≤ fuel → activePlaces v (p :: ps) = e :: es →
    ∃ q qs, DirectoryHandle.skipInactive v fuel (h, err) = (.ret e, (h.moved q, err)) ∧
      e = .ofPlace q ∧ v.active e ∧ Cursor v key (h.moved q) q qs ∧
      qs.length ≤ ps.length ∧ activePlaces v qs = es := by
  intro ps
  induction ps with
  | nil =>
    intro h p fuel e es hc hfuel hes
    obtain ⟨fuel, rfl⟩ : ∃ n, fuel = n + 1 := ⟨fuel - 1, by simp at hfuel; omega⟩
    cases hp : v.active (.ofPlace p) with
    | false =>
      rw [activePlaces_cons_of_inactive hp] at hes
      cases hes
    | true =>
      rw [activePlaces_cons_of_active hp] at hes
      cases hes
      refine ⟨p, [], ?_, rfl, hp, ?_, le_rfl, rfl⟩
      · rw [hc.skipInactive_succ, if_pos hp, hc.moved_self]
      · rwa [hc.moved_self]
  | cons q qs ih =>
    intro h p fuel e es hc hfuel hes
    obtain ⟨fuel, rfl⟩ : ∃ n, fuel = n + 1 := ⟨fuel - 1, by simp at hfuel; omega⟩
    cases hp : v.active (.ofPlace p) with
    | false =>
      rw [activePlaces_cons_of_inactive hp] at hes
      obtain ⟨r, rs, hskip, he, hactive, hcursor, hlen, hrest⟩ :=
        ih hc.moved (Nat.le_of_succ_le_succ hfuel) hes
      refine ⟨r, rs, ?_, he, hactive, hcursor, Nat.le_succ_of_le hlen, hrest⟩
      rw [hc.skipInactive_succ, if_neg (by simp [hp]), Call.bind_of_ret hc.next_apply, hskip]
      rfl
    | true =>
      rw [activePlaces_cons_of_active hp] at hes
      cases hes
      refine ⟨p, q :: qs, ?_, rfl, hp, ?_, le_rfl, rfl⟩
      · rw [hc.skipInactive_succ, if_pos hp, hc.moved_self]
      · rwa [hc.moved_self]

/-- Without an active entry left, the loop throws at the last place. -/
theorem skipInactive_throws (err : Err) : ∀ {ps : List (BlockPtr × ℕ)} {h : DirectoryHandle}
    {p : BlockPtr × ℕ} {fuel : ℕ}, Cursor v key h p ps → (p :: ps).length ≤ fuel →
    activePlaces v (p :: ps) = [] →
    ∃ q, DirectoryHandle.skipInactive v fuel (h, err)
        = (.throw (.runtimeError "no more directory blocks"), (h.moved q, err)) ∧
      Cursor v key (h.moved q) q [] ∧ activePlaces v [q] = [] := by
  intro ps
  induction ps with
  | nil =>
    intro h p fuel hc hfuel hnone
    obtain ⟨fuel, rfl⟩ : ∃ n, fuel = n + 1 := ⟨fuel - 1, by simp at hfuel; omega⟩
    cases hp : v.active (.ofPlace p) with
    | true =>
      rw [activePlaces_cons_of_active hp] at hnone
      cases hnone
    | false =>
      refine ⟨p, ?_, ?_, hnone⟩
      · rw [hc.skipInactive_succ, if_neg (by simp [hp]), Call.bind_of_throw hc.next_throws,
          hc.moved_self]
      · rwa [hc.moved_self]
  | cons q qs ih =>
    intro h p fuel hc hfuel hnone
    obtain ⟨fuel, rfl⟩ : ∃ n, fuel = n + 1 := ⟨fuel - 1, by simp at hfuel; omega⟩
    cases hp : v.active (.ofPlace p) with
    | true =>
      rw [activePlaces_cons_of_active hp] at hnone
      cases hnone
    | false =>
      rw [activePlaces_cons_of_inactive hp] at hnone
      obtain ⟨r, hskip, hcursor, hrest⟩ := ih hc.moved (Nat.le_of_succ_le_succ hfuel) hnone
      refine ⟨r, ?_, hcursor, hrest⟩
      rw [hc.skipInactive_succ, if_neg (by simp [hp]), Call.bind_of_ret hc.next_apply, hskip]
      rfl

/-! ### The outcomes of `NextEntry` -/

/-- After as many entries as the header promises. -/
theorem nextEntry_end (hheader : h.header = some key)
    (hcount : h.entryIndex = fileCount (v.headerOf key)) (fuel : ℕ) :
    DirectoryHandle.nextEntry v fuel (h, err) = (.ret none, (h, .endOfFile)) := by
  rw [DirectoryHandle.nextEntry, Call.get_bind_apply]
  simp only [hheader, Call.ite_apply, if_pos hcount]
  rfl

theorem nextEntry_of_ne (hheader : h.header = some key)
    (hcount : h.entryIndex ≠ fileCount (v.headerOf key)) (fuel : ℕ) :
    DirectoryHandle.nextEntry v fuel (h, err) = (do
      let entry ← DirectoryHandle.skipInactive v fuel
      modify fun s => (s.1.counted, s.2)
      DirectoryHandle.next v
      pure (some entry) : Call Exn (DirectoryHandle × Err) (Option EntryPtr)) (h, err) := by
  rw [DirectoryHandle.nextEntry, Call.get_bind_apply]
  simp only [hheader, Call.ite_apply, if_neg hcount]
  rfl

/-- Looking for an entry, `NextEntry` leaves the error alone. -/
theorem frames_nextEntry (hheader : h.header = some key)
    (hcount : h.entryIndex ≠ fileCount (v.headerOf key)) (fuel : ℕ) :
    (DirectoryHandle.nextEntry v fuel).Frames h := by
  have hframes : (do
      let entry ← DirectoryHandle.skipInactive v fuel
      modify fun s => (s.1.counted, s.2)
      DirectoryHandle.next v
      pure (some entry) : Call Exn (DirectoryHandle × Err) (Option EntryPtr)).Frames h :=
    (frames_skipInactive fuel h).bind fun entry h₁ =>
      Call.Frames.bind ⟨.ret ⟨⟩, h₁.counted, fun _ => rfl⟩ fun _ h₂ =>
        (frames_next h₂).bind fun _ h₃ => ⟨.ret (some entry), h₃, fun _ => rfl⟩
  obtain ⟨o, h', happly⟩ := hframes
  exact ⟨o, h', fun err => (nextEntry_of_ne hheader hcount fuel).trans (happly err)⟩

/-- An entry is returned whatever the error is. -/
theorem nextEntry_some {fuel : ℕ} {e : EntryPtr} {s : DirectoryHandle × Err}
    (hnext : DirectoryHandle.nextEntry v fuel (h, err) = (.ret (some e), s)) :
    ∃ h', s = (h', err) ∧
      ∀ err', DirectoryHandle.nextEntry v fuel (h, err') = (.ret (some e), (h', err')) := by
  cases hheader : h.header with
  | none =>
    rw [DirectoryHandle.nextEntry, Call.get_bind_apply] at hnext
    simp [hheader] at hnext
  | some key =>
    by_cases hcount : h.entryIndex = fileCount (v.headerOf key)
    · rw [nextEntry_end hheader hcount] at hnext
      cases hnext
    · obtain ⟨o, h', happly⟩ := frames_nextEntry hheader hcount fuel
      rw [happly] at hnext
      cases hnext
      exact ⟨h', rfl, happly⟩

/-- The end is reported when as many entries have been counted as the header promises. -/
theorem nextEntry_none {fuel : ℕ} {s : DirectoryHandle × Err}
    (hnext : DirectoryHandle.nextEntry v fuel (h, err) = (.ret none, s)) :
    ∃ key, h.header = some key ∧ h.entryIndex = fileCount (v.headerOf key) ∧
      s = (h, .endOfFile) := by
  cases hheader : h.header with
  | none =>
    rw [DirectoryHandle.nextEntry, Call.get_bind_apply] at hnext
    simp [hheader] at hnext
  | some key =>
    by_cases hcount : h.entryIndex = fileCount (v.headerOf key)
    · rw [nextEntry_end hheader hcount] at hnext
      cases hnext
      exact ⟨key, rfl, hcount, rfl⟩
    · rw [nextEntry_of_ne hheader hcount] at hnext
      simp only [Call.bind_eq_ret_iff] at hnext
      obtain ⟨entry, _, -, _, _, -, _, _, -, hret⟩ := hnext
      cases hret

/-- The next active entry is returned, and the cursor moves past it. -/
theorem nextEntry_returns {fuel : ℕ} {e : EntryPtr} {es : List EntryPtr} (err : Err)
    (hr : Remaining v fuel key h (e :: es)) (hcount : h.entryIndex ≠ fileCount (v.headerOf key)) :
    ∃ h', DirectoryHandle.nextEntry v fuel (h, err) = (.ret (some e), (h', err)) ∧
      Remaining v fuel key h' es ∧ h'.entryIndex = h.entryIndex + 1 := by
  obtain ⟨p, ps, hc, hlen, hes⟩ := hr
  obtain ⟨q, qs, hskip, rfl, hactive, hcursor, hqs, hrest⟩ := skipInactive_apply err hc hlen hes
  cases qs with
  | nil => exact absurd rfl (hcursor.ne_nil_of_active hactive)
  | cons r rs =>
    refine ⟨(h.moved q).counted.moved r, ?_, ⟨r, rs, hcursor.counted.moved, ?_, hrest⟩, rfl⟩
    · rw [nextEntry_of_ne hc.header hcount, Call.bind_of_ret hskip, Call.modify_bind_apply,
        Call.bind_of_ret hcursor.counted.next_apply, Call.pure_apply]
    · simp only [List.length_cons] at hqs hlen ⊢
      omega

/-- When the header promises more entries than there are, the call that looks for one of them
throws, and the next one will, too. -/
theorem nextEntry_throws {fuel : ℕ} (err : Err) (hr : Remaining v fuel key h [])
    (hcount : h.entryIndex ≠ fileCount (v.headerOf key)) :
    ∃ h', DirectoryHandle.nextEntry v fuel (h, err)
        = (.throw (.runtimeError "no more directory blocks"), (h', err)) ∧
      Remaining v fuel key h' [] ∧ h'.entryIndex = h.entryIndex := by
  obtain ⟨p, ps, hc, hlen, hes⟩ := hr
  obtain ⟨q, hskip, hcursor, hrest⟩ := skipInactive_throws err hc hlen hes
  refine ⟨h.moved q, ?_, ⟨q, [], hcursor, ?_, hrest⟩, rfl⟩
  · rw [nextEntry_of_ne hc.header hcount, Call.bind_of_throw hskip]
  · simp only [List.length_cons, List.length_nil] at hlen ⊢
    omega

end

/-! ### Opening a directory -/

/-- A key block the handle accepts. -/
def Volume.IsKeyBlock (v : Volume) (key : BlockPtr) : Prop :=
  Entry.storageType (v.headerOf key) = storageTypeVolumeBlock ∨
    Entry.storageType (v.headerOf key) = storageTypeSubdirBlock

/-- A handle that has just been opened. -/
def DirectoryHandle.opened (key : BlockPtr) : DirectoryHandle := ⟨some key, some key, 1, 0⟩

section
variable {v : Volume} {key : BlockPtr} {rest : List BlockPtr}

theorem openBlock_of_isKeyBlock (hkey : v.IsKeyBlock key) (s : DirectoryHandle × Err) :
    DirectoryHandle.openBlock v key s = (.ret (), (.opened key, s.2)) := by
  rw [DirectoryHandle.openBlock, Call.ite_apply, if_neg fun hn => hkey.elim hn.1 hn.2]
  rfl

theorem openBlock_of_not_isKeyBlock (hkey : ¬ v.IsKeyBlock key) (s : DirectoryHandle × Err) :
    DirectoryHandle.openBlock v key s
      = (.throw (.runtimeError "not a directory key block"), s) := by
  rw [DirectoryHandle.openBlock, Call.ite_apply, if_pos (not_or.mp hkey)]
  rfl

theorem create_of_isKeyBlock (hkey : v.IsKeyBlock key) (err : Err) :
    DirectoryHandle.create v key err = (.ret (.opened key), err) := by
  rw [DirectoryHandle.create,
    Call.bind_of_ret (Call.withLocal_of_ret (openBlock_of_isKeyBlock hkey _))]
  rfl

theorem active_ofPlace_lt (hc : BlockChain v key rest) {p : BlockPtr × ℕ}
    (hb : p.1 ∈ key :: rest) (hp : p.2 ≤ 13) (hactive : v.active (.ofPlace p)) : p.2 < 13 := by
  refine lt_of_le_of_ne hp fun h13 => ?_
  have htrailing : Entry.storageType (v.entry (.ofPlace p)) = 0 := by
    have := hc.trailing p.1 hb
    rw [Entry.storageType, Volume.entry, EntryPtr.ofPlace, h13]
    exact this
  simp [Volume.active, Entry.isInactive, htrailing, storageTypeNone] at hactive

/-- Slot 13 adds nothing to the active entries of a block. -/
theorem filter_placesFrom (hc : BlockChain v key rest) {b : BlockPtr} (hb : b ∈ key :: rest) {j : ℕ}
    (hj : j ≤ 13) :
    ((Linked.placesFrom 13 b j).map EntryPtr.ofPlace).filter v.active
      = (slotsOf b j).filter v.active := by
  have hghost : v.active ⟨b, 13⟩ = false := by
    by_contra h
    exact absurd (active_ofPlace_lt hc (p := (b, 13)) hb le_rfl (Bool.eq_true_of_not_eq_false h))
      (lt_irrefl 13)
  have hrange : List.range' j (13 + 1 - j) = List.range' j (13 - j) ++ [13] := by
    rw [show 13 + 1 - j = 13 - j + 1 by omega, List.range'_1_concat,
      show j + (13 - j) = 13 by omega]
  rw [Linked.placesFrom, slotsOf, hrange, List.map_map, List.map_append, List.filter_append]
  simp [Function.comp_def, EntryPtr.ofPlace, hghost]

/-- The active entries of a directory are those at the places of a fresh cursor. -/
theorem activePlaces_opened (hc : BlockChain v key rest) :
    activePlaces v ((key, 1) :: Linked.placesAfter 13 key 1 rest) = activeSlots v key rest := by
  rw [activePlaces, activeSlots, Linked.cons_placesAfter (by decide), List.map_append,
    List.filter_append, List.filter_append,
    filter_placesFrom hc (List.mem_cons_self ..) (by decide), List.map_flatMap, List.filter_flatMap,
    List.filter_flatMap]
  congr 1
  refine List.flatMap_congr fun b hb => ?_
  exact filter_placesFrom hc (List.mem_cons_of_mem _ hb) (Nat.zero_le 13)

/-- The cursor of a handle that has just been opened. -/
theorem BlockChain.cursor (hc : BlockChain v key rest) :
    Cursor v key (.opened key) (key, 1) (Linked.placesAfter 13 key 1 rest) where
  header := rfl
  block := rfl
  index := rfl
  entries := hc.entries
  linked := hc.linked.places (by decide)
  inRange := fun q hq => hc.inRange _ (Linked.mem_cons_placesAfter (by decide) hq).1
  lt_of_active := fun q hq => by
    obtain ⟨hb, hle⟩ := Linked.mem_cons_placesAfter (by decide) hq
    exact active_ofPlace_lt hc hb hle

/-- **A handle that has just been opened** has all the active entries before it. -/
theorem BlockChain.remaining (hc : BlockChain v key rest) {fuel : ℕ}
    (hfuel : 14 * (rest.length + 1) ≤ fuel) :
    Remaining v fuel key (.opened key) (activeSlots v key rest) :=
  ⟨(key, 1), Linked.placesAfter 13 key 1 rest, hc.cursor,
    (Linked.length_cons_placesAfter (by decide) key rest).trans hfuel, activePlaces_opened hc⟩

end

end Prodosfs
