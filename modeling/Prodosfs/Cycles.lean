import Prodosfs.Catalog
import Prodosfs.Slots

/-!
# Directories that go round

The blocks of a directory are linked by numbers on the disk, and nothing keeps them from leading
back to a block that has been there before. Three loops follow them. `CountRootDirectoryBlocks` goes
on until it finds the number 0, and `NextEntry` until it finds an active slot. `GetEntry` calls
`NextEntry`, and counts what it has been given. The number of entries in the header bounds the
entries that are returned, and not the slots that are stepped over.

## Main definitions

* `Volume.ChainEnds` — the blocks from one on come to an end
* `DirectoryHandle.Trapped` — a place from which `NextEntry` finds neither an entry nor an end
* `DirectoryHandle.Lost` — a path on which `GetEntry` comes to such a place

## Main results

* `countRootDirectoryBlocks_ends_iff`, `nextEntry_ends_iff`, `getEntry_ends_iff` — when the calls
  end
-/

namespace Prodosfs

/-! ### Chains -/

/-- The block that `_Next` goes on to, if it does not throw. -/
def Volume.linkedBlock (v : Volume) (b : BlockPtr) : Option BlockPtr :=
  if v.nextPointer b ≠ 0 ∧ v.nextPointer b < v.disk.numBlocks then
    some (.image (512 * v.nextPointer b))
  else none

/-- The blocks from `b` on come to an end: to a pointer that is 0, or not the number of a block. -/
def Volume.ChainEnds (v : Volume) (b : BlockPtr) : Prop := ∃ bs, Linked v.linkedBlock b bs

section
variable {v : Volume} {b c : BlockPtr}

theorem Volume.ChainEnds.last (h : v.linkedBlock b = none) : v.ChainEnds b := ⟨[], .last h⟩

theorem Volume.chainEnds_iff_of_linked (h : v.linkedBlock b = some c) :
    v.ChainEnds b ↔ v.ChainEnds c := by
  constructor
  · rintro ⟨_, hlast | ⟨hnext, htail⟩⟩
    · rw [h] at hlast
      cases hlast
    · rw [h] at hnext
      cases hnext
      exact ⟨_, htail⟩
  · rintro ⟨bs, hlinked⟩
    exact ⟨c :: bs, .cons h hlinked⟩

end

/-! ### `CountRootDirectoryBlocks` -/

section
variable {v : Volume} {σ : Type} {b c : BlockPtr} {s : σ}

theorem countDirectoryLoop_of_linkedBlock (h : v.linkedBlock b = some c) (rounds k : ℕ) :
    v.countDirectoryLoop (rounds + 1) (v.nextPointer b) k s
      = v.countDirectoryLoop rounds (v.nextPointer c) (k + 1) s := by
  rw [Volume.linkedBlock, Option.ite_none_right_eq_some] at h
  obtain ⟨⟨hne, hlt⟩, hc⟩ := h
  obtain ⟨n, hn⟩ := Nat.exists_eq_succ_of_ne_zero hne
  rw [hn] at hlt hc ⊢
  cases hc
  rw [Volume.countDirectoryLoop, Call.bind_of_ret (Volume.readBlock_of_lt hlt _)]

theorem countDirectoryLoop_zero_of_linkedBlock (h : v.linkedBlock b = some c) (k : ℕ) :
    v.countDirectoryLoop 0 (v.nextPointer b) k s = (.timeout, s) := by
  rw [Volume.linkedBlock, Option.ite_none_right_eq_some] at h
  obtain ⟨n, hn⟩ := Nat.exists_eq_succ_of_ne_zero h.1.1
  rw [hn]
  rfl

theorem countDirectoryLoop_of_last (h : v.linkedBlock b = none) (rounds k : ℕ) :
    (v.countDirectoryLoop (rounds + 1) (v.nextPointer b) k s).1.Defined := by
  cases hpointer : v.nextPointer b with
  | zero => exact trivial
  | succ n =>
    have hge : v.disk.numBlocks ≤ n + 1 := by
      by_contra hlt
      rw [Volume.linkedBlock, hpointer, if_pos ⟨Nat.succ_ne_zero n, Nat.not_le.mp hlt⟩] at h
      cases h
    rw [Volume.countDirectoryLoop, Call.bind_of_throw (Volume.readBlock_of_ge hge _)]
    trivial

/-- The loop ends if and only if the chain does. To the right, the induction is on the bound, and to
the left on the chain. -/
theorem countDirectoryLoop_ends_iff (b : BlockPtr) (s : σ) (k : ℕ) :
    (∃ rounds, (v.countDirectoryLoop rounds (v.nextPointer b) k s).1.Defined) ↔ v.ChainEnds b := by
  constructor
  · rintro ⟨rounds, hdefined⟩
    induction rounds generalizing b k with
    | zero =>
      cases hlink : v.linkedBlock b with
      | none => exact .last hlink
      | some c =>
        rw [countDirectoryLoop_zero_of_linkedBlock hlink] at hdefined
        exact hdefined.elim
    | succ rounds ih =>
      cases hlink : v.linkedBlock b with
      | none => exact .last hlink
      | some c =>
        rw [countDirectoryLoop_of_linkedBlock hlink] at hdefined
        exact (Volume.chainEnds_iff_of_linked hlink).mpr (ih c (k + 1) hdefined)
  · rintro ⟨bs, hlinked⟩
    induction hlinked generalizing k with
    | last hlast => exact ⟨1, countDirectoryLoop_of_last hlast 0 k⟩
    | cons hlink _ ih =>
      obtain ⟨rounds, hdefined⟩ := ih (k + 1)
      refine ⟨rounds + 1, ?_⟩
      rw [countDirectoryLoop_of_linkedBlock hlink]
      exact hdefined

/-- `CountRootDirectoryBlocks` ends if and only if the root directory does. -/
theorem countRootDirectoryBlocks_ends_iff (v : Volume) (s : σ) :
    Call.Ends v.countRootDirectoryBlocks s ↔ v.ChainEnds (.image Volume.root) :=
  countDirectoryLoop_ends_iff _ s 1

end

/-! ### `NextEntry` -/

/-- A handle with a header and a block. -/
def DirectoryHandle.IsOpen (h : DirectoryHandle) : Prop :=
  ∃ key b, h.header = some key ∧ h.block = some b

/-- `NextEntry` is to find one more entry, but from here on all slots are inactive and the blocks go
round. -/
structure DirectoryHandle.Trapped (v : Volume) (h : DirectoryHandle) : Prop where
  more : ∃ key, h.header = some key ∧ h.entryIndex ≠ fileCount (v.headerOf key)
  round : ∃ b, h.block = some b ∧ ¬ v.ChainEnds b
  inactive : ∀ e, Examines v h e → v.active e = false

/-- The loop of `NextEntry` ends: at an active slot, or where `_Next` cannot go on. -/
inductive DirectoryHandle.Stops (v : Volume) : DirectoryHandle → Prop
  | active {h : DirectoryHandle} {b : BlockPtr} (block : h.block = some b)
      (active : v.active ⟨b, h.blockIndex⟩) : Stops v h
  | stuck {h : DirectoryHandle} (stuck : ∀ h', ¬ h.Moves v h') : Stops v h
  | step {h h' : DirectoryHandle} {b : BlockPtr} (block : h.block = some b)
      (inactive : v.active ⟨b, h.blockIndex⟩ = false) (moves : h.Moves v h') (tail : Stops v h') :
      Stops v h

section
variable {v : Volume} {h h' : DirectoryHandle} {key b c : BlockPtr} {err : Err}

theorem DirectoryHandle.Moves.isOpen (hmoves : h.Moves v h') : h'.IsOpen := by
  cases hmoves.cases with
  | slot header => exact ⟨_, _, header, rfl⟩
  | block header => exact ⟨_, _, header, rfl⟩

/-- The entries that have been counted do not matter to the cursor. -/
theorem DirectoryHandle.Moves.of_counted (hmoves : h.counted.Moves v h') :
    ∃ h'', h.Moves v h'' := by
  cases hmoves.cases with
  | slot header block lt => exact ⟨_, .slot header block lt⟩
  | block header block ge pointer inRange => exact ⟨_, .block header block ge pointer inRange⟩

/-- A step is to the next slot of the block, or to the next block. -/
theorem DirectoryHandle.Moves.chainEnds_iff (hmoves : h.Moves v h') (hblock : h.block = some b)
    (hblock' : h'.block = some c) : v.ChainEnds b ↔ v.ChainEnds c := by
  cases hmoves.cases with
  | slot _ block =>
    cases hblock.symm.trans block
    cases hblock'
    exact Iff.rfl
  | block _ block _ pointer inRange =>
    cases hblock.symm.trans block
    cases hblock'
    exact Volume.chainEnds_iff_of_linked (if_pos ⟨pointer, inRange⟩)

/-- A handle that cannot move is in the last block. -/
theorem linkedBlock_of_stuck (hheader : h.header = some key) (hblock : h.block = some b)
    (hstuck : ∀ h', ¬ h.Moves v h') : v.linkedBlock b = none := by
  refine if_neg fun hlink => ?_
  rcases Nat.lt_or_ge h.blockIndex (entriesPerBlock (v.headerOf key)).toNat with hlt | hge
  · exact hstuck _ (.slot hheader hblock hlt)
  · exact hstuck _ (.block hheader hblock hge hlink.1 hlink.2)

/-- In a block it is enough to look at what comes behind its slots. The induction is on the slots
that are left. -/
theorem stops_of_behind
    (hbehind : ∀ {h : DirectoryHandle}, h.header = some key → h.block = some b →
      (entriesPerBlock (v.headerOf key)).toNat ≤ h.blockIndex → h.Stops v)
    (hheader : h.header = some key) (hblock : h.block = some b) : h.Stops v := by
  induction hleft : (entriesPerBlock (v.headerOf key)).toNat - h.blockIndex generalizing h with
  | zero => exact hbehind hheader hblock (Nat.le_of_sub_eq_zero hleft)
  | succ d ih =>
    have hmoves : h.Moves v (h.moved (b, h.blockIndex + 1)) := .slot hheader hblock (by omega)
    cases hactive : v.active ⟨b, h.blockIndex⟩ with
    | true => exact .active hblock hactive
    | false =>
      refine .step hblock hactive hmoves (ih hheader rfl ?_)
      show _ - (h.blockIndex + 1) = d
      omega

/-- In a chain that ends, the loop does. The induction is on the chain. -/
theorem stops_of_linked {bs : List BlockPtr} (hlinked : Linked v.linkedBlock b bs) :
    ∀ {h : DirectoryHandle}, h.header = some key → h.block = some b → h.Stops v := by
  induction hlinked with
  | @last b hlast =>
    refine stops_of_behind fun {h} hheader hblock hge => .stuck fun h' hmoves => ?_
    cases hmoves.cases with
    | slot header block lt =>
      cases hheader.symm.trans header
      omega
    | block _ block _ pointer inRange =>
      cases hblock.symm.trans block
      rw [Volume.linkedBlock, if_pos ⟨pointer, inRange⟩] at hlast
      cases hlast
  | @cons b c _ hlink _ ih =>
    rw [Volume.linkedBlock, Option.ite_none_right_eq_some] at hlink
    obtain ⟨⟨hpointer, hlt⟩, hc⟩ := hlink
    refine stops_of_behind fun {h} hheader hblock hge => ?_
    cases hactive : v.active ⟨b, h.blockIndex⟩ with
    | true => exact .active hblock hactive
    | false =>
      exact .step hblock hactive (.block hheader hblock hge hpointer hlt) (ih hheader hc)

/-- At an active slot further on, the loop ends. The induction is on the way to it. -/
theorem stops_of_examines {e : EntryPtr} (hexamines : Examines v h e) (hactive : v.active e) :
    h.Stops v := by
  induction hexamines with
  | here hblock => exact .active hblock hactive
  | later hblock hinactive hmoves _ ih => exact .step hblock hinactive hmoves (ih hactive)

/-- There is no way out of a trap. -/
theorem DirectoryHandle.Trapped.of_moves (htrapped : h.Trapped v) (hmoves : h.Moves v h') :
    h'.Trapped v := by
  obtain ⟨key, hheader, hne⟩ := htrapped.more
  obtain ⟨b, hblock, hround⟩ := htrapped.round
  obtain ⟨-, c, -, hc⟩ := hmoves.isOpen
  exact ⟨⟨key, hmoves.header_eq.trans hheader, hmoves.entryIndex_eq.trans_ne hne⟩,
    ⟨c, hc, fun hends => hround ((hmoves.chainEnds_iff hblock hc).mpr hends)⟩,
    fun e he => htrapped.inactive e (.later hblock (htrapped.inactive _ (.here hblock)) hmoves he)⟩

/-- In a trap, the cursor can move. -/
theorem DirectoryHandle.Trapped.exists_moves (htrapped : h.Trapped v) : ∃ h', h.Moves v h' := by
  by_contra hstuck
  obtain ⟨key, hheader, -⟩ := htrapped.more
  obtain ⟨b, hblock, hround⟩ := htrapped.round
  exact hround (.last (linkedBlock_of_stuck hheader hblock fun h' hmoves => hstuck ⟨h', hmoves⟩))

/-- With an entry left to find, the loop ends unless the place is a trap. -/
theorem stops_of_not_trapped (hheader : h.header = some key) (hblock : h.block = some b)
    (hne : h.entryIndex ≠ fileCount (v.headerOf key)) (hnot : ¬ h.Trapped v) : h.Stops v := by
  by_cases hends : v.ChainEnds b
  · obtain ⟨bs, hlinked⟩ := hends
    exact stops_of_linked hlinked hheader hblock
  by_cases hactive : ∃ e, Examines v h e ∧ v.active e
  · obtain ⟨e, hexamines, he⟩ := hactive
    exact stops_of_examines hexamines he
  · refine absurd ⟨⟨key, hheader, hne⟩, ⟨b, hblock, hends⟩, fun e he => ?_⟩ hnot
    exact Bool.not_eq_true _ ▸ fun hact => hactive ⟨e, he, hact⟩

/-- Where `_Next` cannot go on, a call throws. -/
theorem nextEntry_of_stuck (hheader : h.header = some key) (hblock : h.block = some b)
    (hne : h.entryIndex ≠ fileCount (v.headerOf key)) (hstuck : ∀ h', ¬ h.Moves v h') (fuel : ℕ)
    (err : Err) : ∃ e s, DirectoryHandle.nextEntry v (fuel + 1) (h, err) = (.throw e, s) := by
  rw [nextEntry_of_ne hheader hne]
  cases hactive : v.active ⟨b, h.blockIndex⟩ with
  | true =>
    have hskip : DirectoryHandle.skipInactive v (fuel + 1) (h, err)
        = (.ret ⟨b, h.blockIndex⟩, (h, err)) := by
      rw [skipInactive_succ hblock, if_pos hactive]
    obtain ⟨h', -, hmoves⟩ | ⟨e, hthrow⟩ := next_open (v := v) (h := h.counted) hheader hblock err
    · obtain ⟨h'', hmoves'⟩ := hmoves.of_counted
      exact absurd hmoves' (hstuck h'')
    · refine ⟨e, (h.counted, err), ?_⟩
      rw [Call.bind_of_ret hskip, Call.modify_bind_apply, Call.bind_of_throw hthrow]
  | false =>
    obtain ⟨h', -, hmoves⟩ | ⟨e, hthrow⟩ := next_open (v := v) hheader hblock err
    · exact absurd hmoves (hstuck h')
    · refine ⟨e, (h, err), Call.bind_of_throw ?_⟩
      rw [skipInactive_succ hblock, hactive, if_neg Bool.false_ne_true, Call.bind_of_throw hthrow]

/-- In a trap, a call uses up every bound. The induction is on the bound. -/
theorem nextEntry_of_trapped (htrapped : h.Trapped v) (fuel : ℕ) (err : Err) :
    (DirectoryHandle.nextEntry v fuel (h, err)).1 = .timeout := by
  induction fuel generalizing h with
  | zero =>
    obtain ⟨key, hheader, hne⟩ := htrapped.more
    rw [nextEntry_of_ne hheader hne]
    rfl
  | succ fuel ih =>
    obtain ⟨key, hheader, hne⟩ := htrapped.more
    obtain ⟨b, hblock, -⟩ := htrapped.round
    obtain ⟨h', hmoves⟩ := htrapped.exists_moves
    have hinactive := htrapped.inactive _ (.here hblock)
    rw [hmoves.nextEntry_of_inactive hheader hne hblock hinactive]
    exact ih (htrapped.of_moves hmoves)

/-- A call whose loop ends returns or throws. The induction is on the way of the loop. -/
theorem DirectoryHandle.Stops.nextEntry_ends (hstops : h.Stops v) (err : Err)
    (hheader : h.header = some key) (hopen : h.IsOpen)
    (hne : h.entryIndex ≠ fileCount (v.headerOf key)) :
    Call.Ends (DirectoryHandle.nextEntry v) (h, err) := by
  induction hstops with
  | @active h b hblock hactive =>
    by_cases hmove : ∃ h', h.Moves v h'
    · obtain ⟨h', hmoves⟩ := hmove
      refine ⟨1, ?_⟩
      rw [hmoves.nextEntry_of_active hheader hne hblock hactive]
      trivial
    · obtain ⟨e, s, hthrow⟩ := nextEntry_of_stuck hheader hblock hne (not_exists.mp hmove) 0 err
      refine ⟨1, ?_⟩
      rw [hthrow]
      trivial
  | stuck hstuck =>
    obtain ⟨-, b, -, hblock⟩ := hopen
    obtain ⟨e, s, hthrow⟩ := nextEntry_of_stuck hheader hblock hne hstuck 0 err
    refine ⟨1, ?_⟩
    rw [hthrow]
    trivial
  | @step h h' b hblock hinactive hmoves _ ih =>
    obtain ⟨fuel, hdefined⟩ := ih (hmoves.header_eq.trans hheader) hmoves.isOpen
      (hmoves.entryIndex_eq.trans_ne hne)
    refine ⟨fuel + 1, ?_⟩
    rw [hmoves.nextEntry_of_inactive hheader hne hblock hinactive]
    exact hdefined

/-- `NextEntry` ends if and only if the handle is not in a trap. -/
theorem nextEntry_ends_iff (hopen : h.IsOpen) (err : Err) :
    Call.Ends (DirectoryHandle.nextEntry v) (h, err) ↔ ¬ h.Trapped v := by
  constructor
  · intro hends htrapped
    exact Call.not_ends_of_timeout (fun fuel => nextEntry_of_trapped htrapped fuel err) hends
  · intro hnot
    obtain ⟨key, b, hheader, hblock⟩ := id hopen
    by_cases hcount : h.entryIndex = fileCount (v.headerOf key)
    · refine ⟨0, ?_⟩
      rw [nextEntry_end hheader hcount]
      trivial
    · have hstops := stops_of_not_trapped hheader hblock hcount hnot
      exact hstops.nextEntry_ends err hheader hopen hcount

end

/-! ### `GetEntry` -/

/-- `NextEntry` is to find one more entry, and `e` is the slot it looks at first. -/
structure DirectoryHandle.LooksAt (v : Volume) (h : DirectoryHandle) (e : EntryPtr) : Prop where
  more : ∃ key, h.header = some key ∧ h.entryIndex ≠ fileCount (v.headerOf key)
  block : h.block = some e.block
  slot : h.blockIndex = e.slot

/-- Looking for a path, `GetEntry` comes to a trap: it passes over the inactive slots and the
entries with other names, and enters the directories on its way. -/
inductive DirectoryHandle.Lost (v : Volume) : DirectoryHandle → List Str → Prop
  | trapped {h : DirectoryHandle} {path : List Str} (trapped : h.Trapped v) : Lost v h path
  | skip {h h' : DirectoryHandle} {e : EntryPtr} {path : List Str} (looks : h.LooksAt v e)
      (inactive : v.active e = false) (moves : h.Moves v h') (tail : Lost v h' path) : Lost v h path
  | pass {h h' : DirectoryHandle} {e : EntryPtr} {name : Str} {path : List Str}
      (looks : h.LooksAt v e) (active : v.active e)
      (other : Entry.nameMatches (v.entry e) name = false) (moves : h.Moves v h')
      (tail : Lost v h'.counted (name :: path)) : Lost v h (name :: path)
  | enter {h h' : DirectoryHandle} {e : EntryPtr} {name : Str} {path : List Str}
      (looks : h.LooksAt v e) (active : v.active e) (found : Entry.nameMatches (v.entry e) name)
      (rest : path ≠ []) (directory : Entry.isDirectory (v.entry e))
      (inRange : Entry.keyPointer (v.entry e) < v.disk.numBlocks)
      (isKeyBlock : v.IsKeyBlock (v.keyBlock e)) (moves : h.Moves v h')
      (tail : Lost v (.opened (v.keyBlock e)) path) : Lost v h (name :: path)

/-- What `GetEntry` does from a call of `NextEntry` on. The bound of this call is kept apart from
the one of the calls after it. -/
def walkFrom (v : Volume) (bound bound' rounds : ℕ) (path : List Str) :
    Call Exn (DirectoryHandle × Err) (Option EntryPtr) := do
  let entry ← DirectoryHandle.nextEntry v bound
  getEntryLoop v bound' rounds entry path

section
variable {v : Volume} {h h' : DirectoryHandle} {e : EntryPtr} {name : Str} {path : List Str}

theorem DirectoryHandle.LooksAt.nextEntry_zero (hlooks : h.LooksAt v e) (err : Err) :
    (DirectoryHandle.nextEntry v 0 (h, err)).1 = .timeout := by
  obtain ⟨key, hheader, hne⟩ := hlooks.more
  rw [nextEntry_of_ne hheader hne]
  rfl

theorem DirectoryHandle.LooksAt.nextEntry_of_active (hlooks : h.LooksAt v e) (hactive : v.active e)
    (hmoves : h.Moves v h') (fuel : ℕ) (err : Err) :
    DirectoryHandle.nextEntry v (fuel + 1) (h, err) = (.ret (some e), (h'.counted, err)) := by
  obtain ⟨key, hheader, hne⟩ := hlooks.more
  obtain ⟨b, i⟩ := e
  obtain rfl : h.blockIndex = i := hlooks.slot
  exact hmoves.nextEntry_of_active hheader hne hlooks.block hactive fuel err

theorem DirectoryHandle.LooksAt.nextEntry_of_inactive (hlooks : h.LooksAt v e)
    (hinactive : v.active e = false) (hmoves : h.Moves v h') (fuel : ℕ) (err : Err) :
    DirectoryHandle.nextEntry v (fuel + 1) (h, err)
      = DirectoryHandle.nextEntry v fuel (h', err) := by
  obtain ⟨key, hheader, hne⟩ := hlooks.more
  obtain ⟨b, i⟩ := e
  obtain rfl : h.blockIndex = i := hlooks.slot
  exact hmoves.nextEntry_of_inactive hheader hne hlooks.block hinactive fuel err

/-- On a path that is lost, every bound is used up. The induction is on the way to the trap. -/
theorem walkFrom_of_lost (hlost : h.Lost v path) (bound bound' rounds : ℕ) (err : Err) :
    (walkFrom v bound bound' rounds path (h, err)).1 = .timeout := by
  induction hlost generalizing bound rounds with
  | trapped htrapped => exact Call.bind_fst_of_timeout (nextEntry_of_trapped htrapped bound err)
  | skip hlooks hinactive hmoves _ ih =>
    cases bound with
    | zero => exact Call.bind_fst_of_timeout (hlooks.nextEntry_zero err)
    | succ bound =>
      rw [walkFrom, Call.bind_apply, hlooks.nextEntry_of_inactive hinactive hmoves]
      exact ih bound rounds
  | pass hlooks hactive hother hmoves _ ih =>
    cases bound with
    | zero => exact Call.bind_fst_of_timeout (hlooks.nextEntry_zero err)
    | succ bound =>
      rw [walkFrom, Call.bind_of_ret (hlooks.nextEntry_of_active hactive hmoves bound err)]
      cases rounds with
      | zero => rfl
      | succ rounds =>
        rw [getEntryLoop_of_not_matches _ hother]
        exact ih bound' rounds
  | enter hlooks hactive hfound hrest hdirectory hrange hkey hmoves _ ih =>
    cases bound with
    | zero => exact Call.bind_fst_of_timeout (hlooks.nextEntry_zero err)
    | succ bound =>
      rw [walkFrom, Call.bind_of_ret (hlooks.nextEntry_of_active hactive hmoves bound err)]
      cases rounds with
      | zero => rfl
      | succ rounds =>
        rw [getEntryLoop_of_directory _ hrest hfound hdirectory hrange hkey]
        exact ih bound' rounds

/-- From here, `GetEntry` ends as soon as the bounds are large enough. -/
def DirectoryHandle.WalkEnds (v : Volume) (h : DirectoryHandle) (path : List Str) : Prop :=
  ∃ N, ∀ bound bound' rounds, N ≤ bound → N ≤ bound' → N ≤ rounds → ∀ err,
    (walkFrom v bound bound' rounds path (h, err)).1.Defined

/-- It ends if the call of `NextEntry` throws. -/
theorem walkEnds_of_stuck (hlooks : h.LooksAt v e) (hstuck : ∀ h', ¬ h.Moves v h') :
    h.WalkEnds v path := by
  obtain ⟨key, hheader, hne⟩ := hlooks.more
  refine ⟨1, fun bound bound' rounds hbound _ _ err => ?_⟩
  obtain ⟨fuel, rfl⟩ := Nat.exists_eq_add_of_le' hbound
  obtain ⟨e, s, hthrow⟩ := nextEntry_of_stuck hheader hlooks.block hne hstuck fuel err
  rw [walkFrom, Call.bind_of_throw hthrow]
  trivial

/-- It ends if it does with the entry that is found. -/
theorem walkEnds_of_active (hlooks : h.LooksAt v e) (hactive : v.active e) (hmoves : h.Moves v h')
    (hloop : ∃ N, ∀ bound rounds, N ≤ bound → N ≤ rounds → ∀ err,
      (getEntryLoop v bound rounds (some e) path (h'.counted, err)).1.Defined) :
    h.WalkEnds v path := by
  obtain ⟨N, hloop⟩ := hloop
  refine ⟨N + 1, fun bound bound' rounds hbound hbound' hrounds err => ?_⟩
  obtain ⟨fuel, rfl⟩ := Nat.exists_eq_add_of_le' (Nat.le_of_add_left_le hbound)
  rw [walkFrom, Call.bind_of_ret (hlooks.nextEntry_of_active hactive hmoves fuel err)]
  exact hloop bound' rounds (by omega) (by omega) err

/-- It ends if it does one slot further on. -/
theorem walkEnds_of_inactive (hlooks : h.LooksAt v e) (hinactive : v.active e = false)
    (hmoves : h.Moves v h') (hends : h'.WalkEnds v path) : h.WalkEnds v path := by
  obtain ⟨N, hends⟩ := hends
  refine ⟨N + 1, fun bound bound' rounds hbound hbound' hrounds err => ?_⟩
  obtain ⟨fuel, rfl⟩ := Nat.exists_eq_add_of_le' (Nat.le_of_add_left_le hbound)
  rw [walkFrom, Call.bind_apply, hlooks.nextEntry_of_inactive hinactive hmoves]
  exact hends fuel bound' rounds (by omega) (by omega) (by omega) err

/-- It ends behind the last entry. -/
theorem walkEnds_of_end {key : BlockPtr} (hheader : h.header = some key)
    (hcount : h.entryIndex = fileCount (v.headerOf key)) : h.WalkEnds v path := by
  refine ⟨1, fun bound bound' rounds _ _ hrounds err => ?_⟩
  obtain ⟨rounds, rfl⟩ := Nat.exists_eq_add_of_le' hrounds
  rw [walkFrom, Call.bind_of_ret (nextEntry_end hheader hcount bound)]
  trivial

/-- With an entry of another name, it ends if it does from the next call of `NextEntry` on. -/
theorem loopEnds_of_not_matches (hother : Entry.nameMatches (v.entry e) name = false)
    (hends : h.WalkEnds v (name :: path)) :
    ∃ N, ∀ bound rounds, N ≤ bound → N ≤ rounds → ∀ err,
      (getEntryLoop v bound rounds (some e) (name :: path) (h, err)).1.Defined := by
  obtain ⟨N, hends⟩ := hends
  refine ⟨N + 1, fun bound rounds hbound hrounds err => ?_⟩
  obtain ⟨rounds, rfl⟩ := Nat.exists_eq_add_of_le' (Nat.le_of_add_left_le hrounds)
  rw [getEntryLoop_of_not_matches _ hother]
  exact hends bound bound rounds (by omega) (by omega) (by omega) err

/-- With an entry of the name, it ends if it does from the directory on that is entered, if one
is. -/
theorem loopEnds_of_matches (hfound : Entry.nameMatches (v.entry e) name)
    (hends : path ≠ [] → Entry.isDirectory (v.entry e) →
      Entry.keyPointer (v.entry e) < v.disk.numBlocks → v.IsKeyBlock (v.keyBlock e) →
      (DirectoryHandle.opened (v.keyBlock e)).WalkEnds v path) :
    ∃ N, ∀ bound rounds, N ≤ bound → N ≤ rounds → ∀ err,
      (getEntryLoop v bound rounds (some e) (name :: path) (h, err)).1.Defined := by
  by_cases hpath : path = []
  · refine ⟨1, fun bound rounds _ hrounds err => ?_⟩
    obtain ⟨rounds, rfl⟩ := Nat.exists_eq_add_of_le' hrounds
    rw [hpath, getEntryLoop_of_last hfound]
    trivial
  cases hdirectory : Entry.isDirectory (v.entry e) with
  | false =>
    refine ⟨1, fun bound rounds _ hrounds err => ?_⟩
    obtain ⟨rounds, rfl⟩ := Nat.exists_eq_add_of_le' hrounds
    rw [getEntryLoop_of_not_directory _ hpath hfound hdirectory]
    trivial
  | true =>
    by_cases hopens : Entry.keyPointer (v.entry e) < v.disk.numBlocks ∧ v.IsKeyBlock (v.keyBlock e)
    · obtain ⟨N, hends⟩ := hends hpath hdirectory hopens.1 hopens.2
      refine ⟨N + 1, fun bound rounds hbound hrounds err => ?_⟩
      obtain ⟨rounds, rfl⟩ := Nat.exists_eq_add_of_le' (Nat.le_of_add_left_le hrounds)
      rw [getEntryLoop_of_directory _ hpath hfound hdirectory hopens.1 hopens.2]
      exact hends bound bound rounds (by omega) (by omega) (by omega) err
    · refine ⟨1, fun bound rounds _ hrounds err => ?_⟩
      obtain ⟨rounds, rfl⟩ := Nat.exists_eq_add_of_le' hrounds
      obtain ⟨ex, hthrow⟩ := @getEntryLoop_of_not_opens v bound name path rounds e hpath hfound
        hdirectory hopens h err
      rw [hthrow]
      trivial

/-- From a handle on that does not lead into a trap, `GetEntry` ends. The inductions are on the
path, on the entries that are left of a directory, and on the way of the loop to the next one. -/
theorem walkEnds_of_not_lost : ∀ {path : List Str}, path ≠ [] → ∀ {d : ℕ} {h : DirectoryHandle}
    {key : BlockPtr}, h.header = some key → h.IsOpen →
      h.entryIndex + d = fileCount (v.headerOf key) → ¬ h.Lost v path → h.WalkEnds v path := by
  intro path
  induction path with
  | nil => exact fun hnil => absurd rfl hnil
  | cons name path ihpath =>
    intro _ d
    induction d with
    | zero => exact fun hheader _ hcount _ => walkEnds_of_end hheader hcount
    | succ d ih =>
      intro h key hheader hopen hcount hnot
      have hne : h.entryIndex ≠ fileCount (v.headerOf key) := by omega
      obtain ⟨-, b, -, hblock⟩ := id hopen
      have hstops := stops_of_not_trapped hheader hblock hne
        fun htrapped => hnot (.trapped htrapped)
      clear hblock
      induction hstops with
      | @active h b hblock hactive =>
        have hlooks : h.LooksAt v ⟨b, h.blockIndex⟩ := ⟨⟨key, hheader, hne⟩, hblock, rfl⟩
        by_cases hmove : ∃ h', h.Moves v h'
        · obtain ⟨h', hmoves⟩ := hmove
          refine walkEnds_of_active hlooks hactive hmoves ?_
          cases hmatches : Entry.nameMatches (v.entry ⟨b, h.blockIndex⟩) name with
          | false =>
            refine loopEnds_of_not_matches hmatches (ih (hmoves.header_eq.trans hheader) ?_ ?_ ?_)
            · exact hmoves.counted.isOpen
            · show h'.entryIndex + 1 + d = _
              rw [hmoves.entryIndex_eq]
              omega
            · exact fun hlost => hnot (.pass hlooks hactive hmatches hmoves hlost)
          | true =>
            refine loopEnds_of_matches hmatches fun hrest hdirectory hrange hkey => ?_
            refine ihpath hrest rfl ⟨_, _, rfl, rfl⟩ (Nat.zero_add _) fun hlost => ?_
            exact hnot (.enter hlooks hactive hmatches hrest hdirectory hrange hkey hmoves hlost)
        · exact walkEnds_of_stuck hlooks (not_exists.mp hmove)
      | @stuck h hstuck =>
        obtain ⟨-, b, -, hblock⟩ := hopen
        have hlooks : h.LooksAt v ⟨b, h.blockIndex⟩ := ⟨⟨key, hheader, hne⟩, hblock, rfl⟩
        exact walkEnds_of_stuck hlooks hstuck
      | @step h h' b hblock hinactive hmoves _ ihstep =>
        have hlooks : h.LooksAt v ⟨b, h.blockIndex⟩ := ⟨⟨key, hheader, hne⟩, hblock, rfl⟩
        refine walkEnds_of_inactive hlooks hinactive hmoves (ihstep ?_ hmoves.isOpen ?_ ?_ ?_)
        · exact hmoves.header_eq.trans hheader
        · rw [hmoves.entryIndex_eq]
          exact hcount
        · exact fun hlost => hnot (.skip hlooks hinactive hmoves hlost)
        · exact hmoves.entryIndex_eq.trans_ne hne

end

/-- `GetEntry` is its walk from the root directory on. -/
theorem getEntry_defined_iff {v : Volume} (hv : v.Accepted) {pathname : Str}
    (hroot : pathname ≠ ascii "/") (fuel : ℕ) (err : Err) :
    (getEntry v fuel pathname err).1.Defined ↔
      (walkFrom v fuel fuel fuel (splitPath pathname)
        (.opened (.image Volume.root), err)).1.Defined := by
  have hwalk : (do
      DirectoryHandle.openBlock v (.image Volume.root)
      walkFrom v fuel fuel fuel (splitPath pathname)
      : Call Exn (DirectoryHandle × Err) (Option EntryPtr)) (⟨none, none, 1, 0⟩, err) = _ :=
    Call.bind_of_ret (openBlock_of_isKeyBlock (isKeyBlock_root hv) _)
  rw [getEntry, Call.ite_apply, if_neg hroot, ← hwalk]
  constructor
  · exact fun hdefined => Call.withLocal_defined_iff.mp (Call.defined_of_bind hdefined)
  · exact fun hdefined => Call.defined_bind (Call.withLocal_defined_iff.mpr hdefined)
      fun _ _ _ => trivial

/-- `GetEntry` ends if and only if its path does not lead into a trap. -/
theorem getEntry_ends_iff {v : Volume} (hv : v.Accepted) (pathname : Str) (err : Err) :
    Call.Ends (fun fuel => getEntry v fuel pathname) err ↔
      pathname = ascii "/" ∨
        ¬ (DirectoryHandle.opened (.image Volume.root)).Lost v (splitPath pathname) := by
  by_cases hroot : pathname = ascii "/"
  · refine ⟨fun _ => Or.inl hroot, fun _ => ⟨0, ?_⟩⟩
    rw [hroot]
    trivial
  constructor
  · rintro ⟨fuel, hdefined⟩
    refine Or.inr fun hlost => ?_
    have hwalk := (getEntry_defined_iff hv hroot fuel err).mp hdefined
    rw [walkFrom_of_lost hlost] at hwalk
    exact hwalk
  · intro hnot
    obtain ⟨N, hends⟩ := walkEnds_of_not_lost (splitPath_ne_nil pathname) rfl ⟨_, _, rfl, rfl⟩
      (Nat.zero_add _) (hnot.resolve_left hroot)
    exact ⟨N, (getEntry_defined_iff hv hroot N err).mpr
      (hends N N N le_rfl le_rfl le_rfl err)⟩

/-- In directories that all come to an end there are no traps. The induction is on the way. -/
theorem DirectoryHandle.Lost.not_chainEnds {v : Volume} {h : DirectoryHandle} {path : List Str}
    (hlost : h.Lost v path)
    (hkeys : ∀ n < v.disk.numBlocks, v.IsKeyBlock (.image (512 * n)) →
      v.ChainEnds (.image (512 * n))) :
    ∀ {b : BlockPtr}, h.block = some b → ¬ v.ChainEnds b := by
  induction hlost with
  | trapped htrapped =>
    intro b hblock
    obtain ⟨c, hc, hround⟩ := htrapped.round
    cases hblock.symm.trans hc
    exact hround
  | skip _ _ hmoves _ ih =>
    intro b hblock hends
    obtain ⟨-, c, -, hc⟩ := hmoves.isOpen
    exact ih hc ((hmoves.chainEnds_iff hblock hc).mp hends)
  | pass _ _ _ hmoves _ ih =>
    intro b hblock hends
    obtain ⟨-, c, -, hc⟩ := hmoves.isOpen
    exact ih hc ((hmoves.chainEnds_iff hblock hc).mp hends)
  | enter _ _ _ _ _ hrange hkey _ _ ih => exact fun _ _ => ih rfl (hkeys _ hrange hkey)

/-! ### All three calls -/

/-- **When the calls end that follow the blocks of a directory.** -/
theorem directoryCalls_end_iff {v : Volume} (hv : v.Accepted) (err : Err) :
    (Call.Ends v.countRootDirectoryBlocks err ↔ v.ChainEnds (.image Volume.root)) ∧
      (∀ h : DirectoryHandle, h.IsOpen →
        (Call.Ends (DirectoryHandle.nextEntry v) (h, err) ↔ ¬ h.Trapped v)) ∧
      ∀ pathname : Str, Call.Ends (fun fuel => getEntry v fuel pathname) err ↔
        pathname = ascii "/" ∨
          ¬ (DirectoryHandle.opened (.image Volume.root)).Lost v (splitPath pathname) :=
  ⟨countRootDirectoryBlocks_ends_iff v err, fun _ hopen => nextEntry_ends_iff hopen err,
    fun pathname => getEntry_ends_iff hv pathname err⟩

/-- The directories of the small volume come to an end, and so do the calls. -/
theorem directoryCalls_end_iff_small :
    Call.Ends smallVolume.countRootDirectoryBlocks Err.none ∧
      Call.Ends (DirectoryHandle.nextEntry smallVolume) (.opened (.image 1024), .none) ∧
      ∀ pathname, Call.Ends (fun fuel => getEntry smallVolume fuel pathname) .none := by
  obtain ⟨hcount, hnext, hget⟩ := directoryCalls_end_iff accepted_small .none
  have hends : smallVolume.ChainEnds (.image 1024) :=
    ⟨[.image 1536], .cons (by decide) (.last (by decide))⟩
  have hlast : ∀ n < smallVolume.disk.numBlocks,
      n ≠ 2 → smallVolume.linkedBlock (.image (512 * n)) = none := by decide
  refine ⟨hcount.mpr hends, (hnext _ ⟨_, _, rfl, rfl⟩).mpr fun htrapped => ?_,
    fun pathname => (hget pathname).mpr (Or.inr fun hlost => ?_)⟩
  · obtain ⟨b, hblock, hround⟩ := htrapped.round
    cases hblock
    exact hround hends
  · refine hlost.not_chainEnds (fun n hn _ => ?_) rfl hends
    by_cases htwo : n = 2
    · rw [htwo]
      exact hends
    · exact .last (hlast n hn htwo)

/-- A root directory with one entry promised, no entry there, and a second block that is its own
successor. -/
def cyclicVolume : Volume :=
  ⟨Disk.ofImage (.sparse 4096 ((1026, 3) :: (1538, 3) :: headerBytes 1028 0xF 65 1 8)) fun _ => 0⟩

theorem accepted_cyclic : cyclicVolume.Accepted := by decide

theorem not_chainEnds_cyclic : ¬ cyclicVolume.ChainEnds (.image 1024) := by
  have hlink : cyclicVolume.linkedBlock (.image 1024) = some (.image 1536) := by decide
  have hround : cyclicVolume.linkedBlock (.image 1536) = some (.image 1536) := by decide
  rw [Volume.chainEnds_iff_of_linked hlink]
  rintro ⟨_, hlast | ⟨hnext, htail⟩⟩
  · rw [hround] at hlast
    cases hlast
  · cases hround.symm.trans hnext
    exact (List.nodup_cons.mp (Linked.cons hround htail).nodup).1 (List.mem_cons_self ..)

/-- Only empty slots are looked at. The induction is on the way of the loop. -/
theorem inactive_cyclic {h : DirectoryHandle} {e : EntryPtr} (hexamines : Examines cyclicVolume h e)
    (hheader : h.header = some (.image 1024))
    (hblock : (h.block = some (.image 1024) ∧ 1 ≤ h.blockIndex) ∨ h.block = some (.image 1536))
    (hindex : h.blockIndex < 14) : cyclicVolume.active e = false := by
  have hempty : ∀ i < 14, cyclicVolume.active ⟨.image 1536, i⟩ = false ∧
      (1 ≤ i → cyclicVolume.active ⟨.image 1024, i⟩ = false) := by decide
  have hentries : (entriesPerBlock (cyclicVolume.headerOf (.image 1024))).toNat = 13 := by decide
  have hnext : cyclicVolume.nextPointer (.image 1024) = 3 ∧
      cyclicVolume.nextPointer (.image 1536) = 3 := by decide
  induction hexamines with
  | @here h b hb =>
    obtain ⟨hroot, hpos⟩ | hlast := hblock
    · cases hb.symm.trans hroot
      exact (hempty _ hindex).2 hpos
    · cases hb.symm.trans hlast
      exact (hempty _ hindex).1
  | @later h h' b e hb _ hmoves _ ih =>
    refine ih (hmoves.header_eq.trans hheader) ?_ ?_
    · cases hmoves.cases with
      | slot header block lt =>
        cases hb.symm.trans block
        obtain ⟨hroot, -⟩ | hlast := hblock
        · exact Or.inl ⟨hb.symm.trans hroot, Nat.le_add_left 1 _⟩
        · exact Or.inr (hb.symm.trans hlast)
      | block header block ge pointer inRange =>
        cases hb.symm.trans block
        refine Or.inr ?_
        obtain ⟨hroot, -⟩ | hlast := hblock
        · cases hb.symm.trans hroot
          show some (BlockPtr.image (512 * cyclicVolume.nextPointer (.image 1024))) = _
          rw [hnext.1]
        · cases hb.symm.trans hlast
          show some (BlockPtr.image (512 * cyclicVolume.nextPointer (.image 1536))) = _
          rw [hnext.2]
    · cases hmoves.cases with
      | slot header block lt =>
        cases header.symm.trans hheader
        show h.blockIndex + 1 < 14
        omega
      | block => exact Nat.succ_pos 13

theorem trapped_cyclic : (DirectoryHandle.opened (.image 1024)).Trapped cyclicVolume where
  more := ⟨_, rfl, by decide⟩
  round := ⟨_, rfl, not_chainEnds_cyclic⟩
  inactive _ hexamines :=
    inactive_cyclic hexamines rfl (Or.inl ⟨rfl, le_rfl⟩) (by decide)

/-- None of the three calls ends. -/
theorem not_directoryCalls_end_cyclic : cyclicVolume.Accepted ∧
    ¬ Call.Ends cyclicVolume.countRootDirectoryBlocks Err.none ∧
    ¬ Call.Ends (DirectoryHandle.nextEntry cyclicVolume) (.opened (.image 1024), .none) ∧
    ¬ Call.Ends (fun fuel => getEntry cyclicVolume fuel (ascii "/A")) .none := by
  refine ⟨accepted_cyclic, ?_, ?_, ?_⟩
  · rw [countRootDirectoryBlocks_ends_iff]
    exact not_chainEnds_cyclic
  · rw [nextEntry_ends_iff ⟨_, _, rfl, rfl⟩]
    exact not_not_intro trapped_cyclic
  · rw [getEntry_ends_iff accepted_cyclic]
    rintro (hroot | hnot)
    · exact absurd hroot (by decide)
    · exact hnot (.trapped trapped_cyclic)

end Prodosfs
