import Prodosfs.Listing

/-!
# The slots a directory handle looks at

A block has 13 slots of 39 bytes from offset 4 on, which leaves its last byte over. Slot 13 starts
with that byte and lies in the block behind.

Where a handle stops counting slots is up to the header of its directory. With the 13 entries the
constructor of a volume insists on, a block is left through slot 13: whoever steps over the last
real slot looks at the one after it before moving on to the next block. Headers of subdirectories
are not checked at all.

## Main definitions

* `DirectoryHandle.Moves` — a returning `_Next`
* `DirectoryHandle.MoveCases` — where it can lead to
* `Examines` — the slots that one call of `NextEntry` looks at
* `Volume.RealSlot` — the slots that are there
* `Volume.OnlyRealSlots` — a directory of which no other slots are looked at

## Main results

* `DirectoryHandle.Moves.cases` — inversion of `_Next`
* `SlotInvariant.examines_real` — the invariant rule for the slots of all calls on a handle
* `onlyRealSlots_iff` — which directories these are
-/

namespace Prodosfs

/-- One of the 13 slots of a block of the image. Its bytes end before the last one of the block. -/
structure Volume.RealSlot (v : Volume) (e : EntryPtr) : Prop where
  block : ∃ n < v.disk.numBlocks, e.block = .image (512 * n)
  inside : 4 + 39 * e.slot + 39 ≤ 511

/-! ### Moving the cursor -/

/-- `_Next` returns, and leaves the handle `h'`. -/
def DirectoryHandle.Moves (v : Volume) (h h' : DirectoryHandle) : Prop :=
  ∀ err, DirectoryHandle.next v (h, err) = (.ret (), (h', err))

/-- Where a handle can move to. -/
inductive DirectoryHandle.MoveCases (v : Volume) (h : DirectoryHandle) : DirectoryHandle → Prop
  /-- On to the next slot. -/
  | slot {key b : BlockPtr} (header : h.header = some key) (block : h.block = some b)
      (lt : h.blockIndex < (entriesPerBlock (v.headerOf key)).toNat) :
      MoveCases v h (h.moved (b, h.blockIndex + 1))
  /-- On to the next block. -/
  | block {key b : BlockPtr} (header : h.header = some key) (block : h.block = some b)
      (ge : (entriesPerBlock (v.headerOf key)).toNat ≤ h.blockIndex)
      (pointer : v.nextPointer b ≠ 0) (inRange : v.nextPointer b < v.disk.numBlocks) :
      MoveCases v h (h.moved (.image (512 * v.nextPointer b), 0))

/-- The slots that a call of `NextEntry` looks at, from the first one on. -/
inductive Examines (v : Volume) : DirectoryHandle → EntryPtr → Prop
  | here {h : DirectoryHandle} {b : BlockPtr} (block : h.block = some b) :
      Examines v h ⟨b, h.blockIndex⟩
  | later {h h' : DirectoryHandle} {b : BlockPtr} {e : EntryPtr} (block : h.block = some b)
      (inactive : v.active ⟨b, h.blockIndex⟩ = false) (moves : h.Moves v h')
      (tail : Examines v h' e) : Examines v h e

/-- The slots that `NextEntry` looks at: none when all entries have been counted. -/
def NextExamines (v : Volume) (h : DirectoryHandle) (e : EntryPtr) : Prop :=
  ∃ key, h.header = some key ∧ h.entryIndex ≠ fileCount (v.headerOf key) ∧ Examines v h e

/-- Only real slots are looked at or returned, in any sequence of calls on a handle of the
directory. Every call comes with a bound of its own. -/
def Volume.OnlyRealSlots (v : Volume) (key : BlockPtr) : Prop :=
  ∀ (err err' : Err) (h : DirectoryHandle), DirectoryHandle.create v key err = (.ret h, err') →
    ∀ (fuels : List ℕ) (s : DirectoryHandle × Err) (e : EntryPtr),
      s = Call.after (DirectoryHandle.nextEntry v) (h, err') fuels →
      (NextExamines v s.1 e ∨ ∃ fuel t, DirectoryHandle.nextEntry v fuel s = (.ret (some e), t)) →
      v.RealSlot e

section
variable {v : Volume} {h : DirectoryHandle} {key b : BlockPtr} {err : Err}

theorem DirectoryHandle.Moves.slot (header : h.header = some key) (block : h.block = some b)
    (lt : h.blockIndex < (entriesPerBlock (v.headerOf key)).toNat) :
    h.Moves v (h.moved (b, h.blockIndex + 1)) := fun err => by
  simp [DirectoryHandle.next, header, block, lt, DirectoryHandle.moved]

theorem DirectoryHandle.Moves.block (header : h.header = some key) (block : h.block = some b)
    (ge : (entriesPerBlock (v.headerOf key)).toNat ≤ h.blockIndex)
    (pointer : v.nextPointer b ≠ 0) (inRange : v.nextPointer b < v.disk.numBlocks) :
    h.Moves v (h.moved (.image (512 * v.nextPointer b), 0)) := fun err => by
  simp [DirectoryHandle.next, header, block, Nat.not_lt.mpr ge, pointer, DirectoryHandle.moved,
    Call.bind_of_ret (Volume.getBlock_of_lt (Or.inr inRange) _), Volume.blockPtr]

/-- `_Next` of an open handle moves the cursor, or throws. -/
theorem next_open (hheader : h.header = some key) (hblock : h.block = some b) (err : Err) :
    (∃ h', h.MoveCases v h' ∧ h.Moves v h') ∨
      ∃ e, DirectoryHandle.next v (h, err) = (.throw e, (h, err)) := by
  rcases Nat.lt_or_ge h.blockIndex (entriesPerBlock (v.headerOf key)).toNat with hlt | hge
  · exact Or.inl ⟨_, .slot hheader hblock hlt, .slot hheader hblock hlt⟩
  have hnot := Nat.not_lt.mpr hge
  by_cases h0 : v.nextPointer b = 0
  · refine Or.inr ⟨.runtimeError "no more directory blocks", ?_⟩
    simp [DirectoryHandle.next, hheader, hblock, hnot, h0]
  rcases Nat.lt_or_ge (v.nextPointer b) v.disk.numBlocks with hin | hout
  · exact Or.inl ⟨_, .block hheader hblock hge h0 hin, .block hheader hblock hge h0 hin⟩
  · refine Or.inr ⟨.runtimeError "invalid block number", ?_⟩
    simp [DirectoryHandle.next, hheader, hblock, hnot, h0,
      Call.bind_of_throw (Volume.getBlock_of_ge h0 hout _)]

/-- `_Next` moves the cursor, or leaves the handle alone. -/
theorem next_cases (v : Volume) (h : DirectoryHandle) (err : Err) :
    (∃ h', h.MoveCases v h' ∧ h.Moves v h') ∨
      ∃ o, o ≠ .ret () ∧ DirectoryHandle.next v (h, err) = (o, (h, err)) := by
  cases hheader : h.header with
  | none =>
    refine Or.inr ⟨.fault, by simp, ?_⟩
    simp [DirectoryHandle.next, hheader]
  | some key =>
    cases hblock : h.block with
    | none =>
      refine Or.inr ⟨.fault, by simp, ?_⟩
      simp [DirectoryHandle.next, hheader, hblock]
    | some b =>
      obtain ⟨h', hcases, hmoves⟩ | ⟨e, hthrow⟩ := next_open (v := v) hheader hblock err
      · exact Or.inl ⟨h', hcases, hmoves⟩
      · exact Or.inr ⟨.throw e, by simp, hthrow⟩

/-- **Inversion of `_Next`.** There are two places to move to. -/
theorem DirectoryHandle.Moves.cases {h' : DirectoryHandle} (hmoves : h.Moves v h') :
    h.MoveCases v h' := by
  have hnext := hmoves .none
  obtain ⟨h'', hcases, hmoves'⟩ | ⟨o, ho, hother⟩ := next_cases v h .none
  · rw [hmoves' .none] at hnext
    cases hnext
    exact hcases
  · rw [hother] at hnext
    cases hnext
    exact absurd rfl ho

theorem DirectoryHandle.Moves.header_eq {h' : DirectoryHandle} (hmoves : h.Moves v h') :
    h'.header = h.header := by
  cases hmoves.cases <;> rfl

theorem DirectoryHandle.Moves.entryIndex_eq {h' : DirectoryHandle} (hmoves : h.Moves v h') :
    h'.entryIndex = h.entryIndex := by
  cases hmoves.cases <;> rfl

/-- Where the cursor goes does not depend on the entries that have been counted. -/
theorem DirectoryHandle.Moves.counted {h' : DirectoryHandle} (hmoves : h.Moves v h') :
    h.counted.Moves v h'.counted := by
  cases hmoves.cases with
  | slot header block lt => exact .slot (h := h.counted) header block lt
  | block header block ge pointer inRange =>
    exact .block (h := h.counted) header block ge pointer inRange

/-- One round of the loop, at a handle with a block. -/
theorem skipInactive_succ (hblock : h.block = some b) (fuel : ℕ) :
    DirectoryHandle.skipInactive v (fuel + 1) (h, err) =
      if v.active ⟨b, h.blockIndex⟩ then (.ret ⟨b, h.blockIndex⟩, (h, err))
      else (do
        DirectoryHandle.next v
        DirectoryHandle.skipInactive v fuel : Call Exn (DirectoryHandle × Err) EntryPtr)
        (h, err) := by
  rw [DirectoryHandle.skipInactive, Call.get_bind_apply]
  simp only [hblock]
  rw [Call.ite_apply, Volume.active]
  cases hactive : Entry.isInactive (v.entry ⟨b, h.blockIndex⟩) with
  | true => simp
  | false => simp

/-- A call at an active slot returns it and moves on. -/
theorem DirectoryHandle.Moves.nextEntry_of_active {h' : DirectoryHandle} (hmoves : h.Moves v h')
    (hheader : h.header = some key) (hne : h.entryIndex ≠ fileCount (v.headerOf key))
    (hblock : h.block = some b) (hactive : v.active ⟨b, h.blockIndex⟩) (fuel : ℕ) (err : Err) :
    DirectoryHandle.nextEntry v (fuel + 1) (h, err)
      = (.ret (some ⟨b, h.blockIndex⟩), (h'.counted, err)) := by
  have hskip : DirectoryHandle.skipInactive v (fuel + 1) (h, err)
      = (.ret ⟨b, h.blockIndex⟩, (h, err)) := by
    rw [skipInactive_succ hblock, if_pos hactive]
  rw [nextEntry_of_ne hheader hne, Call.bind_of_ret hskip, Call.modify_bind_apply,
    Call.bind_of_ret (hmoves.counted err)]
  rfl

/-- A call at an inactive slot goes on like one at the next slot. -/
theorem DirectoryHandle.Moves.nextEntry_of_inactive {h' : DirectoryHandle} (hmoves : h.Moves v h')
    (hheader : h.header = some key) (hne : h.entryIndex ≠ fileCount (v.headerOf key))
    (hblock : h.block = some b) (hinactive : v.active ⟨b, h.blockIndex⟩ = false) (fuel : ℕ)
    (err : Err) :
    DirectoryHandle.nextEntry v (fuel + 1) (h, err)
      = DirectoryHandle.nextEntry v fuel (h', err) := by
  have hskip : DirectoryHandle.skipInactive v (fuel + 1) (h, err)
      = DirectoryHandle.skipInactive v fuel (h', err) := by
    rw [skipInactive_succ hblock, hinactive, if_neg Bool.false_ne_true,
      Call.bind_of_ret (hmoves err)]
  rw [nextEntry_of_ne hheader hne, nextEntry_of_ne (hmoves.header_eq.trans hheader)
    (hmoves.entryIndex_eq.trans_ne hne), Call.bind_apply, Call.bind_apply, hskip]

/-- What the loop preserves, and where it ends. The induction is on the bound. -/
theorem skipInactive_invariant {L : DirectoryHandle → Prop}
    (hstay : ∀ h h' b, L h → h.block = some b → v.active ⟨b, h.blockIndex⟩ = false →
      h.Moves v h' → L h') (err : Err) (fuel : ℕ) : ∀ {h : DirectoryHandle}, L h →
    ∃ o h', DirectoryHandle.skipInactive v fuel (h, err) = (o, (h', err)) ∧ L h' ∧
      ∀ e, o = .ret e → h'.block = some e.block ∧ h'.blockIndex = e.slot ∧ v.active e ∧
        Examines v h e := by
  induction fuel with
  | zero =>
    intro h hL
    exact ⟨.timeout, h, rfl, hL, fun e he => by cases he⟩
  | succ fuel ih =>
    intro h hL
    cases hblock : h.block with
    | none =>
      refine ⟨.fault, h, ?_, hL, fun e he => by cases he⟩
      simp [DirectoryHandle.skipInactive, hblock]
    | some b =>
      rw [skipInactive_succ hblock]
      cases hactive : v.active ⟨b, h.blockIndex⟩ with
      | true =>
        refine ⟨.ret ⟨b, h.blockIndex⟩, h, if_pos rfl, hL, fun e he => ?_⟩
        cases he
        exact ⟨hblock, rfl, hactive, .here hblock⟩
      | false =>
        rw [if_neg Bool.false_ne_true, Call.bind_apply]
        obtain ⟨h', -, hmoves⟩ | ⟨o, ho, hnext⟩ := next_cases v h err
        · rw [hmoves err]
          obtain ⟨o, h'', hskip, hL', hend⟩ := ih (hstay h h' b hL hblock hactive hmoves)
          refine ⟨o, h'', hskip, hL', fun e he => ?_⟩
          obtain ⟨hb, hslot, hact, hexamines⟩ := hend e he
          exact ⟨hb, hslot, hact, .later hblock hactive hmoves hexamines⟩
        · rw [hnext]
          cases o with
          | ret => exact absurd rfl ho
          | throw e => exact ⟨.throw e, h, rfl, hL, fun e he => by cases he⟩
          | fault => exact ⟨.fault, h, rfl, hL, fun e he => by cases he⟩
          | timeout => exact ⟨.timeout, h, rfl, hL, fun e he => by cases he⟩

/-- What the rounds of the loop and the steps after it preserve, a call of `NextEntry` preserves,
however it ends. -/
theorem nextEntry_invariant {K L : DirectoryHandle → Prop}
    (henter : ∀ h key, K h → h.header = some key → h.entryIndex ≠ fileCount (v.headerOf key) → L h)
    (hstay : ∀ h h' b, L h → h.block = some b → v.active ⟨b, h.blockIndex⟩ = false →
      h.Moves v h' → L h')
    (hleave : ∀ h, L h → K h)
    (hcounted : ∀ h b, L h → h.block = some b → v.active ⟨b, h.blockIndex⟩ → K h.counted)
    (hmove : ∀ h h' b, L h → h.block = some b → v.active ⟨b, h.blockIndex⟩ →
      h.counted.Moves v h' → K h')
    (fuel : ℕ) (s : DirectoryHandle × Err) (hK : K s.1) :
    K (DirectoryHandle.nextEntry v fuel s).2.1 := by
  obtain ⟨h, err⟩ := s
  cases hheader : h.header with
  | none =>
    have hfault : DirectoryHandle.nextEntry v fuel (h, err) = (.fault, (h, err)) := by
      rw [DirectoryHandle.nextEntry, Call.get_bind_apply]
      simp [hheader]
    rw [hfault]
    exact hK
  | some key =>
  by_cases hcount : h.entryIndex = fileCount (v.headerOf key)
  · rw [nextEntry_end hheader hcount]
    exact hK
  · obtain ⟨o, h', hskip, hL, hend⟩ :=
      skipInactive_invariant hstay err fuel (henter h key hK hheader hcount)
    rw [nextEntry_of_ne hheader hcount]
    by_cases hret : ∃ e, o = .ret e
    · obtain ⟨e, rfl⟩ := hret
      obtain ⟨hblock, hslot, hactive, -⟩ := hend e rfl
      obtain ⟨b, i⟩ := e
      obtain rfl : h'.blockIndex = i := hslot
      rw [Call.bind_of_ret hskip, Call.modify_bind_apply]
      obtain ⟨h'', -, hmoves⟩ | ⟨o, ho, hnext⟩ := next_cases v h'.counted err
      · rw [Call.bind_of_ret (hmoves err)]
        exact hmove _ _ _ hL hblock hactive hmoves
      · rw [Call.bind_snd_of_ne_ret hnext fun _ => ho]
        exact hcounted _ _ hL hblock hactive
    · rw [Call.bind_snd_of_ne_ret hskip fun e he => hret ⟨e, he⟩]
      exact hleave _ hL

/-- What a returned entry does to the handle. -/
theorem nextEntry_some_state {fuel : ℕ} {e : EntryPtr} {h' : DirectoryHandle} {err' : Err}
    (hnext : DirectoryHandle.nextEntry v fuel (h, err) = (.ret (some e), (h', err'))) :
    h'.header = h.header ∧ h'.entryIndex = h.entryIndex + 1 := by
  cases hheader : h.header with
  | none =>
    rw [DirectoryHandle.nextEntry, Call.get_bind_apply] at hnext
    simp [hheader] at hnext
  | some key =>
    by_cases hcount : h.entryIndex = fileCount (v.headerOf key)
    · rw [nextEntry_end hheader hcount] at hnext
      cases hnext
    obtain ⟨o, h₁, hskip, ⟨hsame, hindex⟩, -⟩ := skipInactive_invariant
      (v := v) (L := fun h₁ => h₁.header = h.header ∧ h₁.entryIndex = h.entryIndex)
      (fun _ _ _ hL _ _ hm => ⟨hm.header_eq.trans hL.1, hm.entryIndex_eq.trans hL.2⟩) err fuel
      (h := h) ⟨rfl, rfl⟩
    rw [nextEntry_of_ne hheader hcount] at hnext
    simp only [Call.bind_eq_ret_iff, hskip] at hnext
    obtain ⟨e', t, hfound, _, t', hmodify, _, t'', hmoved, hret⟩ := hnext
    cases hfound
    cases hmodify
    cases hret
    obtain ⟨h₂, -, hm⟩ | ⟨o, ho, hmoved'⟩ := next_cases v h₁.counted err
    · have heq := hmoved.symm.trans (hm err)
      cases heq
      exact ⟨hm.header_eq.trans (hsame.trans hheader),
        hm.entryIndex_eq.trans (congrArg (· + 1) hindex)⟩
    · have heq := hmoved.symm.trans hmoved'
      cases heq
      exact absurd rfl ho

/-- An iteration yields as many entries as the header promises. -/
theorem Iterates.count {fuel : ℕ} {es : List EntryPtr} (hit : Iterates v fuel h es)
    (hheader : h.header = some key) :
    h.entryIndex + es.length = fileCount (v.headerOf key) := by
  induction hit with
  | nil header count =>
    rw [header] at hheader
    cases hheader
    exact count
  | cons head _ ih =>
    obtain ⟨hsame, hindex⟩ := nextEntry_some_state (head .none)
    have hrest := ih (hsame.trans hheader)
    rw [hindex] at hrest
    rw [List.length_cons]
    omega

theorem Iterates.length_lt {fuel : ℕ} {es : List EntryPtr} (hit : Iterates v fuel h es)
    (hheader : h.header = some key) : es.length < 65536 := by
  have hcount := hit.count hheader
  have hlt := fileCount_lt (v.headerOf key)
  omega

/-- There is only one. -/
theorem Iterates.unique {fuel : ℕ} {es es' : List EntryPtr} (hit : Iterates v fuel h es)
    (hit' : Iterates v fuel h es') : es = es' := by
  induction hit generalizing es' with
  | @nil h _ header count =>
    have hcount := hit'.count header
    exact (List.length_eq_zero_iff.mp (by omega)).symm
  | @cons h h' e es head tail ih =>
    cases hit' with
    | nil header count =>
      have hcount := (Iterates.cons head tail).count header
      rw [List.length_cons] at hcount
      omega
    | cons head' tail' =>
      have heq := (head .none).symm.trans (head' .none)
      cases heq
      rw [ih tail']

/-! ### The invariant rule -/

/-- What holds between the calls of `NextEntry` on a handle (`K`) and in the rounds of its loop
(`L`), so that only real slots are looked at. -/
structure SlotInvariant (v : Volume) (key : BlockPtr) (K L : DirectoryHandle → Prop) : Prop where
  header : ∀ h, K h → h.header = some key
  enter : ∀ h, K h → h.entryIndex ≠ fileCount (v.headerOf key) → L h
  stay : ∀ h h' b, L h → h.block = some b → v.active ⟨b, h.blockIndex⟩ = false → h.Moves v h' → L h'
  /-- The call may be cut short by an exception. -/
  leave : ∀ h, L h → K h
  count : ∀ h b, L h → h.block = some b → v.active ⟨b, h.blockIndex⟩ → K h.counted
  move : ∀ h h' b, L h → h.block = some b → v.active ⟨b, h.blockIndex⟩ → h.counted.Moves v h' → K h'
  real : ∀ h b, L h → h.block = some b → v.RealSlot ⟨b, h.blockIndex⟩

variable {K L : DirectoryHandle → Prop}

theorem SlotInvariant.real_of_examines (hinv : SlotInvariant v key K L) {e : EntryPtr}
    (hexamines : Examines v h e) : L h → v.RealSlot e := by
  induction hexamines with
  | here block =>
    intro hL
    exact hinv.real _ _ hL block
  | later block inactive moves _ ih =>
    intro hL
    exact ih (hinv.stay _ _ _ hL block inactive moves)

/-- One call, however it ends. -/
theorem SlotInvariant.nextEntry (hinv : SlotInvariant v key K L) (fuel : ℕ)
    (s : DirectoryHandle × Err) (hK : K s.1) :
    K (DirectoryHandle.nextEntry v fuel s).2.1 := by
  refine nextEntry_invariant (fun h key' hK hheader hcount => ?_) hinv.stay hinv.leave hinv.count
    hinv.move fuel s hK
  rw [hinv.header h hK] at hheader
  cases hheader
  exact hinv.enter h hK hcount

/-- An entry that is returned has been looked at. -/
theorem nextExamines_of_ret {fuel : ℕ} {e : EntryPtr} {t : DirectoryHandle × Err}
    (hnext : DirectoryHandle.nextEntry v fuel (h, err) = (.ret (some e), t)) :
    NextExamines v h e := by
  cases hheader : h.header with
  | none =>
    rw [DirectoryHandle.nextEntry, Call.get_bind_apply] at hnext
    simp [hheader] at hnext
  | some key =>
    by_cases hcount : h.entryIndex = fileCount (v.headerOf key)
    · rw [nextEntry_end hheader hcount] at hnext
      cases hnext
    · rw [nextEntry_of_ne hheader hcount] at hnext
      simp only [Call.bind_eq_ret_iff] at hnext
      obtain ⟨e', _, hskip, _, _, -, _, _, -, hret⟩ := hnext
      cases hret
      obtain ⟨o, h', hskip', -, hend⟩ :=
        skipInactive_invariant (v := v) (L := fun _ => True) (fun _ _ _ _ _ _ _ => trivial) err
          fuel (h := h) trivial
      rw [hskip] at hskip'
      cases hskip'
      exact ⟨key, hheader, hcount, (hend e rfl).2.2.2⟩

/-- Only real slots are looked at, in all the calls on a handle. -/
theorem SlotInvariant.examines_real (hinv : SlotInvariant v key K L) (hK : K h) (err : Err)
    (fuels : List ℕ) {e : EntryPtr}
    (hexamines : NextExamines v (Call.after (DirectoryHandle.nextEntry v) (h, err) fuels).1 e) :
    v.RealSlot e := by
  have hafter : K (Call.after (DirectoryHandle.nextEntry v) (h, err) fuels).1 :=
    Call.after_invariant (I := fun s : DirectoryHandle × Err => K s.1) hinv.nextEntry fuels hK
  obtain ⟨key', hheader, hcount, hslots⟩ := hexamines
  obtain rfl : key' = key := by
    rw [hinv.header _ hafter] at hheader
    exact (Option.some.inj hheader).symm
  exact hinv.real_of_examines hslots (hinv.enter _ hafter hcount)

/-! ### The two ways to stay inside -/

/-- The active entries of the key block from slot `j` on. -/
def activeFrom (v : Volume) (key : BlockPtr) (j : ℕ) : ℕ := ((slotsOf key j).filter v.active).length

theorem activeFrom_of_active {j : ℕ} (hj : j < 13) (hactive : v.active ⟨key, j⟩) :
    activeFrom v key j = activeFrom v key (j + 1) + 1 := by
  rw [activeFrom, activeFrom, slotsOf, slotsOf, show 13 - j = 13 - (j + 1) + 1 by omega,
    List.range'_succ, List.map_cons, List.filter_cons_of_pos hactive, List.length_cons]

theorem activeFrom_of_inactive {j : ℕ} (hj : j < 13) (hinactive : v.active ⟨key, j⟩ = false) :
    activeFrom v key j = activeFrom v key (j + 1) := by
  rw [activeFrom, activeFrom, slotsOf, slotsOf, show 13 - j = 13 - (j + 1) + 1 by omega,
    List.range'_succ, List.map_cons, List.filter_cons_of_neg (by simp [hinactive])]

/-- A header that allows for 12 entries at most. -/
theorem slotInvariant_of_entriesPerBlock
    (hentries : (entriesPerBlock (v.headerOf key)).toNat ≤ 12) :
    SlotInvariant v key
      (fun h => h.header = some key ∧ (∃ n < v.disk.numBlocks, h.block = some (.image (512 * n))) ∧
        h.blockIndex ≤ 12)
      (fun h => h.header = some key ∧ (∃ n < v.disk.numBlocks, h.block = some (.image (512 * n))) ∧
        h.blockIndex ≤ 12) := by
  have hmoves : ∀ h h' : DirectoryHandle, h.header = some key →
      (∃ n < v.disk.numBlocks, h.block = some (.image (512 * n))) → h.Moves v h' →
      h'.header = some key ∧ (∃ n < v.disk.numBlocks, h'.block = some (.image (512 * n))) ∧
        h'.blockIndex ≤ 12 := by
    intro h h' hheader ⟨n, hn, hblock⟩ hmoves
    obtain ⟨hheader', hblock', hlt⟩ | ⟨-, -, -, h0, hin⟩ := hmoves.cases
    · rw [hheader] at hheader'
      cases hheader'
      refine ⟨hheader, ⟨n, hn, hblock'.symm.trans hblock⟩, ?_⟩
      show h.blockIndex + 1 ≤ 12
      omega
    · exact ⟨hheader, ⟨_, hin, rfl⟩, Nat.zero_le 12⟩
  exact {
    header := fun h hK => hK.1
    enter := fun h hK _ => hK
    stay := fun h h' b hL _ _ h => hmoves _ _ hL.1 hL.2.1 h
    leave := fun h hL => hL
    count := fun h b hL _ _ => hL
    move := fun h h' b hL _ _ hm => hmoves h.counted h' hL.1 hL.2.1 hm
    real := by
      rintro h b ⟨-, ⟨n, hn, hblock⟩, hle⟩ hb
      rw [hblock] at hb
      cases hb
      refine ⟨⟨n, hn, rfl⟩, ?_⟩
      show 4 + 39 * h.blockIndex + 39 ≤ 511
      omega }

/-- A header that promises no more entries than there are in the key block. -/
theorem slotInvariant_of_fileCount {n : ℕ} (hn : n < v.disk.numBlocks)
    (hkey : key = .image (512 * n)) (hentries : 13 ≤ (entriesPerBlock (v.headerOf key)).toNat) :
    SlotInvariant v key
      (fun h => h.header = some key ∧ h.block = some key ∧ h.blockIndex ≤ 13 ∧
        h.entryIndex ≤ fileCount (v.headerOf key) ∧
        fileCount (v.headerOf key) ≤ h.entryIndex + activeFrom v key h.blockIndex)
      (fun h => h.header = some key ∧ h.block = some key ∧ h.blockIndex < 13 ∧
        h.entryIndex < fileCount (v.headerOf key) ∧
        fileCount (v.headerOf key) ≤ h.entryIndex + activeFrom v key h.blockIndex) := by
  have hnone : activeFrom v key 13 = 0 := rfl
  have hmoves : ∀ h h' : DirectoryHandle, h.header = some key → h.block = some key →
      h.blockIndex < 13 → h.Moves v h' → h' = h.moved (key, h.blockIndex + 1) := by
    intro h h' hheader hblock hlt hmoves
    obtain ⟨hheader', hblock', -⟩ | ⟨hheader', -, hge, -, -⟩ := hmoves.cases
    · rw [hblock] at hblock'
      cases hblock'
      rfl
    · rw [hheader] at hheader'
      cases hheader'
      omega
  exact {
    header := fun h hK => hK.1
    enter := by
      rintro h ⟨hheader, hblock, hindex, hle, hcount⟩ hne
      refine ⟨hheader, hblock, lt_of_le_of_ne hindex fun h13 => ?_, by omega, hcount⟩
      rw [h13, hnone] at hcount
      omega
    stay := by
      rintro h h' b ⟨hheader, hblock, hindex, hlt, hcount⟩ hb hinactive hm
      obtain rfl := hmoves h h' hheader hblock hindex hm
      rw [hblock] at hb
      cases hb
      rw [activeFrom_of_inactive hindex hinactive] at hcount
      refine ⟨hheader, rfl, lt_of_le_of_ne hindex fun h13 => ?_, hlt, hcount⟩
      change h.blockIndex + 1 = 13 at h13
      rw [h13, hnone] at hcount
      omega
    leave := fun h ⟨hheader, hblock, hindex, hlt, hcount⟩ =>
      ⟨hheader, hblock, hindex.le, hlt.le, hcount⟩
    count := fun h b ⟨hheader, hblock, hindex, hlt, hcount⟩ _ _ =>
      ⟨hheader, hblock, hindex.le, hlt,
        hcount.trans (Nat.add_le_add_right (Nat.le_succ h.entryIndex) _)⟩
    move := by
      rintro h h' b ⟨hheader, hblock, hindex, hlt, hcount⟩ hb hactive hm
      obtain rfl := hmoves h.counted h' hheader hblock hindex hm
      rw [hblock] at hb
      cases hb
      rw [activeFrom_of_active hindex hactive] at hcount
      refine ⟨hheader, rfl, hindex, hlt, hcount.trans (le_of_eq ?_)⟩
      show h.entryIndex + (activeFrom v key (h.blockIndex + 1) + 1)
        = h.entryIndex + 1 + activeFrom v key (h.blockIndex + 1)
      omega
    real := by
      rintro h b ⟨-, hblock, hindex, -, -⟩ hb
      rw [hblock] at hb
      cases hb
      refine ⟨⟨n, hn, hkey⟩, ?_⟩
      show 4 + 39 * h.blockIndex + 39 ≤ 511
      omega }

/-! ### The slot that is not there -/

/-- When the header promises more, slot 13 of the key block is looked at. The induction is on the
slots before it. -/
theorem exists_nextExamines_thirteen (hentries : 13 ≤ (entriesPerBlock (v.headerOf key)).toNat)
    (err : Err) (d : ℕ) : ∀ {h : DirectoryHandle}, h.header = some key → h.block = some key →
    h.blockIndex + d = 13 →
    h.entryIndex + activeFrom v key h.blockIndex < fileCount (v.headerOf key) →
    ∃ fuels, NextExamines v (Call.after (DirectoryHandle.nextEntry v) (h, err) fuels).1
      ⟨key, 13⟩ := by
  induction d with
  | zero =>
    intro h hheader hblock hd hcount
    have hindex : h.blockIndex = 13 := hd
    exact ⟨[], key, hheader, by show h.entryIndex ≠ _; omega, hindex ▸ Examines.here hblock⟩
  | succ d ih =>
    intro h hheader hblock hd hcount
    have hlt : h.blockIndex < 13 := by omega
    have hne : h.entryIndex ≠ fileCount (v.headerOf key) := by omega
    have hmoves : h.Moves v (h.moved (key, h.blockIndex + 1)) :=
      .slot hheader hblock (hlt.trans_le hentries)
    cases hactive : v.active ⟨key, h.blockIndex⟩ with
    | true =>
      rw [activeFrom_of_active hlt hactive] at hcount
      obtain ⟨fuels, hfuels⟩ := @ih (h.counted.moved (key, h.blockIndex + 1)) hheader rfl
        (by show h.blockIndex + 1 + d = 13; omega)
        (by show h.entryIndex + 1 + activeFrom v key (h.blockIndex + 1) < _; omega)
      refine ⟨1 :: fuels, ?_⟩
      rw [Call.after, List.foldl_cons, hmoves.nextEntry_of_active hheader hne hblock hactive]
      exact hfuels
    | false =>
      rw [activeFrom_of_inactive hlt hactive] at hcount
      obtain ⟨fuels, hfuels⟩ := @ih (h.moved (key, h.blockIndex + 1)) hheader rfl
        (by show h.blockIndex + 1 + d = 13; omega) hcount
      cases fuels with
      | nil =>
        obtain ⟨key', hheader', hne', hexamines⟩ := hfuels
        exact ⟨[], key', hheader', hne', .later hblock hactive hmoves hexamines⟩
      | cons fuel fuels =>
        refine ⟨(fuel + 1) :: fuels, ?_⟩
        rw [Call.after, List.foldl_cons, hmoves.nextEntry_of_inactive hheader hne hblock hactive]
        exact hfuels

/-- **Only real slots are looked at and returned if and only if** the header allows for 12 entries
at most, or promises no more than there are in the key block. -/
theorem onlyRealSlots_iff {n : ℕ} (hn : n < v.disk.numBlocks)
    (hkey : v.IsKeyBlock (.image (512 * n))) :
    v.OnlyRealSlots (.image (512 * n)) ↔
      (entriesPerBlock (v.headerOf (.image (512 * n)))).toNat ≤ 12 ∨
        fileCount (v.headerOf (.image (512 * n)))
          ≤ ((slotsOf (.image (512 * n)) 1).filter v.active).length := by
  constructor
  · intro hreal
    by_contra hnot
    rw [not_or, Nat.not_le, Nat.not_le] at hnot
    obtain ⟨hentries, hcount⟩ := hnot
    obtain ⟨fuels, hexamines⟩ := exists_nextExamines_thirteen hentries .none 12
      (h := .opened (.image (512 * n))) rfl rfl rfl (by
        show 0 + _ < _
        rw [Nat.zero_add]
        exact hcount)
    obtain ⟨-, hinside⟩ := hreal .none .none _ (create_of_isKeyBlock hkey .none) fuels _ _ rfl
      (Or.inl hexamines)
    exact absurd hinside (by decide : ¬ 4 + 39 * 13 + 39 ≤ 511)
  · intro hcond err err' h hcreate fuels s e hs hlooks
    rw [create_of_isKeyBlock hkey] at hcreate
    cases hcreate
    have hexamines : NextExamines v s.1 e :=
      hlooks.elim id fun ⟨_, _, hret⟩ => nextExamines_of_ret hret
    subst hs
    rcases Nat.lt_or_ge 12 (entriesPerBlock (v.headerOf (.image (512 * n)))).toNat with hlt | hle
    · refine (slotInvariant_of_fileCount hn rfl hlt).examines_real ?_ _ fuels hexamines
      refine ⟨rfl, rfl, (by decide : 1 ≤ 13), Nat.zero_le _, ?_⟩
      show _ ≤ 0 + _
      rw [Nat.zero_add]
      exact hcond.resolve_left (Nat.not_le.mpr hlt)
    · refine (slotInvariant_of_entriesPerBlock hle).examines_real ?_ _ fuels hexamines
      exact ⟨rfl, ⟨n, hn, rfl⟩, (by decide : 1 ≤ 12)⟩

end

/-- The subdirectory `D` has one entry and promises no more. -/
theorem onlyRealSlots_iff_small : smallVolume.OnlyRealSlots (.image (512 * 4)) :=
  (onlyRealSlots_iff (n := 4) (by decide) (Or.inr (by decide))).mpr (Or.inr (by decide))

/-- To find the second entry of the root, `NextEntry` looks at slot 13 of the first block. -/
theorem not_onlyRealSlots_small :
    ¬ ∀ (v : Volume) (n : ℕ), v.Accepted → n < v.disk.numBlocks →
      v.IsKeyBlock (.image (512 * n)) → v.OnlyRealSlots (.image (512 * n)) := by
  intro hclaim
  have hkey : smallVolume.IsKeyBlock (.image (512 * 2)) := Or.inl (by decide)
  have hcount : fileCount (smallVolume.headerOf (.image (512 * 2))) = 2 := by decide
  have hactive : activeFrom smallVolume (.image (512 * 2)) 1 = 1 := by decide
  obtain ⟨fuels, hexamines⟩ := exists_nextExamines_thirteen (v := smallVolume) (by decide) .none 12
    (h := .opened (.image (512 * 2))) rfl rfl rfl (by
      show 0 + activeFrom smallVolume (.image (512 * 2)) 1 < _
      rw [hactive, hcount]
      decide)
  obtain ⟨-, hinside⟩ := hclaim smallVolume 2 accepted_small (by decide) hkey .none .none _
    (create_of_isKeyBlock hkey .none) fuels _ _ rfl (Or.inl hexamines)
  exact absurd hinside (by decide)

end Prodosfs
