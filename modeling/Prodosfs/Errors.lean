import Prodosfs.Ends

/-!
# The error of the thread

`error` is a variable of the thread that a failing function sets, that nothing clears, and that the
callbacks look at to find out what has happened. What a callback answers should not depend on what
an earlier request has left there.

Whoever looks at it should come after somebody who has written to it in the same call. That is so
for a lookup that has found nothing, and for a seek that has failed. It is not so in two places:
`prodosfs_readdir` looks at it when it has left its loop early, and `prodosfs_read` does when it
has been asked for no bytes and has found none.

## Blind calls

A call that fails does write to the error, so that it is too much to ask that the state is left
alone. What can be asked is that the call does not look: it ends in the same way from every error,
and what it writes, if anything, is always the same. `Call.Blind` says so of a call whose state is
the error alone, and `Call.BlindAt` of one that has a handle besides, from a given handle on. Both
go through loops and binds, and every function below the callbacks is blind, one after the other,
from blocks to directories, files and the catalogue. A few of them do not even write; they frame the
error.

That is half of it. A callback that looks at the error when a lookup has found nothing is blind
only because a lookup that has found nothing has written: `getEntry_none`, `ne_none_of_openFile` and
`ne_none_of_openDirectory` say that much, and `getEntry_some` that one that has found something has
not.

## Scope

Here are the callbacks that look, open, list and read. `prodosfs_getxattr` and `prodosfs_listxattr`
take an answer from the error, too, when their lookup finds nothing, and then it has written; what
they answer is in `Attributes`, from any error. Nothing depends on what the error is at the start:
the results are about any two of them.

A read is looked at on a handle that `prodosfs_open` has made and that calls have returned to. Other
handles do not occur as long as the caller stops at an exception.

## Main definitions

* `CutShort` — a listing that is left early

## Main results

* `blind_getattr`, `blind_open`, `blind_opendir` — callbacks that do not look
* `error_irrelevant_iff` — when the other two do
-/

namespace Prodosfs

section
variable {τ σ : Type} {v : Volume}

/-! ### Blocks -/

theorem blind_readBlock (n : ℕ) : (v.readBlock n : Call Exn σ BlockPtr).Blind := by
  rcases Nat.lt_or_ge n v.disk.numBlocks with hlt | hge
  · exact ⟨_, none, fun s => Volume.readBlock_of_lt hlt s⟩
  · exact ⟨_, none, fun s => Volume.readBlock_of_ge hge s⟩

theorem frames_readBlock (n : ℕ) (x : τ) :
    (v.readBlock n : Call Exn (τ × σ) BlockPtr).Frames x := by
  rcases Nat.lt_or_ge n v.disk.numBlocks with hlt | hge
  · exact ⟨_, x, fun s => Volume.readBlock_of_lt hlt (x, s)⟩
  · exact ⟨_, x, fun s => Volume.readBlock_of_ge hge (x, s)⟩

theorem blind_getBlock (n : ℕ) : (v.getBlock n : Call Exn σ BlockPtr).Blind :=
  Call.Blind.ite (fun _ => .pure _) fun _ => blind_readBlock n

theorem frames_getBlock (n : ℕ) (x : τ) :
    (v.getBlock n : Call Exn (τ × σ) BlockPtr).Frames x := by
  by_cases hin : n = 0 ∨ n < v.disk.numBlocks
  · exact ⟨_, x, fun s => Volume.getBlock_of_lt hin (x, s)⟩
  · rw [not_or, Nat.not_lt] at hin
    exact ⟨_, x, fun s => Volume.getBlock_of_ge hin.1 hin.2 (x, s)⟩

theorem blind_indexAt (block : BlockPtr) (i : ℤ) : (v.indexAt block i : Call Exn σ ℕ).Blind :=
  Call.Blind.ite (fun _ => .throw _) fun _ => .pure _

theorem frames_indexAt (block : BlockPtr) (i : ℤ) (x : τ) :
    (v.indexAt block i : Call Exn (τ × σ) ℕ).Frames x := by
  by_cases hout : i < 0 ∨ 255 < i
  · exact ⟨_, x, fun s => by rw [Volume.indexAt, if_pos hout]; rfl⟩
  · exact ⟨_, x, fun s => by rw [Volume.indexAt, if_neg hout]; rfl⟩

/-! ### Looking something up -/

theorem frames_openBlock (key : BlockPtr) (h : DirectoryHandle) :
    (DirectoryHandle.openBlock v key).Frames h := by
  by_cases hkey : v.IsKeyBlock key
  · exact ⟨_, _, fun err => openBlock_of_isKeyBlock hkey (h, err)⟩
  · exact ⟨_, _, fun err => openBlock_of_not_isKeyBlock hkey (h, err)⟩

theorem blind_create (key : BlockPtr) : (DirectoryHandle.create v key).Blind :=
  (frames_openBlock key _).blindAt.withLocal.bind fun _ _ => .pure _

theorem blindAt_nextEntry (fuel : ℕ) (h : DirectoryHandle) :
    (DirectoryHandle.nextEntry v fuel).BlindAt h := by
  cases hheader : h.header with
  | none =>
    refine ⟨.fault, h, none, fun err => ?_⟩
    simp [DirectoryHandle.nextEntry, hheader]
  | some key =>
    by_cases hcount : h.entryIndex = fileCount (v.headerOf key)
    · exact ⟨_, h, some .endOfFile, fun err => nextEntry_end hheader hcount fuel⟩
    · exact (frames_nextEntry hheader hcount fuel).blindAt

/-- The loop of `GetEntry`. The induction is on its bound. -/
theorem blindAt_getEntryLoop (fuel : ℕ) : ∀ (rounds : ℕ) (entry : Option EntryPtr)
    (path : List Str) (h : DirectoryHandle), (getEntryLoop v fuel rounds entry path).BlindAt h := by
  intro rounds
  induction rounds with
  | zero =>
    intro entry path h
    exact ⟨.timeout, h, none, fun _ => rfl⟩
  | succ rounds ih =>
    rintro (_ | e) path h
    · exact ⟨.ret none, h, some .fileNotFound, fun _ => rfl⟩
    cases path with
    | nil => exact ⟨.ret none, h, some .fileNotFound, fun _ => rfl⟩
    | cons name path =>
      rw [getEntryLoop]
      refine .ite (fun _ => .ite (fun _ => ?_) fun _ => .ite (fun _ => ?_) fun _ => ?_) fun _ => ?_
      · exact ⟨.ret (some e), h, none, fun _ => rfl⟩
      · exact ⟨.ret none, h, some .directoryNotFound, fun _ => rfl⟩
      · exact (frames_readBlock _ h).blindAt.bind fun key h₁ _ =>
          (frames_openBlock key h₁).blindAt.bind fun _ h₂ _ =>
            (blindAt_nextEntry fuel h₂).bind fun entry h₃ _ => ih entry path h₃
      · exact (blindAt_nextEntry fuel h).bind fun entry h₁ _ => ih entry (name :: path) h₁

theorem blind_getEntry (fuel : ℕ) (path : Str) : (getEntry v fuel path).Blind :=
  .ite (fun _ => .pure _) fun _ => (Call.BlindAt.withLocal
    ((frames_openBlock _ _).blindAt.bind fun _ h _ => (blindAt_nextEntry fuel h).bind
      fun entry h _ => blindAt_getEntryLoop fuel fuel entry (splitPath path) h)).bind
        fun _ _ => .pure _

/-- Whoever finds nothing says so. The induction is on the bound of the loop. -/
theorem getEntryLoop_none {fuel : ℕ} : ∀ {rounds : ℕ} {entry : Option EntryPtr} {path : List Str}
    {s t : DirectoryHandle × Err}, getEntryLoop v fuel rounds entry path s = (.ret none, t) →
      t.2 = .fileNotFound ∨ t.2 = .directoryNotFound := by
  intro rounds
  induction rounds with
  | zero =>
    intro entry path s t hloop
    cases hloop
  | succ rounds ih =>
    rintro (_ | e) path s t hloop
    · cases hloop
      exact Or.inl rfl
    cases path with
    | nil =>
      cases hloop
      exact Or.inl rfl
    | cons name path =>
      rw [getEntryLoop] at hloop
      split at hloop
      · split at hloop
        · cases hloop
        · split at hloop
          · cases hloop
            exact Or.inr rfl
          · simp only [Call.bind_eq_ret_iff] at hloop
            obtain ⟨_, _, -, _, _, -, _, _, -, hrest⟩ := hloop
            exact ih hrest
      · obtain ⟨_, _, -, hrest⟩ := Call.bind_eq_ret_iff.mp hloop
        exact ih hrest

theorem getEntry_none {fuel : ℕ} {path : Str} {err err' : Err}
    (hentry : getEntry v fuel path err = (.ret none, err')) :
    err' = .fileNotFound ∨ err' = .directoryNotFound := by
  rw [getEntry] at hentry
  split at hentry
  · cases hentry
  · obtain ⟨⟨entry, h⟩, t, hlocal, hret⟩ := Call.bind_eq_ret_iff.mp hentry
    cases hret
    have hcall := Call.withLocal_eq_ret_iff.mp hlocal
    simp only [Call.bind_eq_ret_iff] at hcall
    obtain ⟨_, _, -, _, _, -, hloop⟩ := hcall
    exact getEntryLoop_none hloop

/-- Whoever finds something leaves the error alone. The induction is on the bound of the loop. -/
theorem getEntryLoop_some {fuel : ℕ} {e : EntryPtr} : ∀ {rounds : ℕ} {entry : Option EntryPtr}
    {path : List Str} {s t : DirectoryHandle × Err},
    getEntryLoop v fuel rounds entry path s = (.ret (some e), t) → t.2 = s.2 := by
  intro rounds
  induction rounds with
  | zero =>
    intro entry path s t hloop
    cases hloop
  | succ rounds ih =>
    -- the next entry leaves the error alone if there is one, and without one nothing is found
    have hrest : ∀ {path : List Str} {s t : DirectoryHandle × Err},
        (DirectoryHandle.nextEntry v fuel >>= fun entry => getEntryLoop v fuel rounds entry path) s
          = (.ret (some e), t) → t.2 = s.2 := by
      intro path s t hrest
      obtain ⟨entry, u, hnext, hloop⟩ := Call.bind_eq_ret_iff.mp hrest
      cases entry with
      | none =>
        cases rounds with
        | zero => cases hloop
        | succ rounds => cases hloop
      | some e' =>
        obtain ⟨h', rfl, -⟩ := nextEntry_some hnext
        have hsame := ih hloop
        exact hsame
    rintro (_ | e') path s t hloop
    · cases hloop
    cases path with
    | nil => cases hloop
    | cons name path =>
      rw [getEntryLoop] at hloop
      split at hloop
      · split at hloop
        · cases hloop
          rfl
        · split at hloop
          · cases hloop
          · rw [Call.bind_eq_ret_iff] at hloop
            obtain ⟨key, u, hread, hloop⟩ := hloop
            rw [Call.bind_eq_ret_iff] at hloop
            obtain ⟨_, u', hopen, hloop⟩ := hloop
            rw [hrest hloop, (frames_openBlock key u.1).snd_eq hopen,
              (frames_readBlock _ s.1).snd_eq hread]
      · exact hrest hloop

theorem getEntry_some {fuel : ℕ} {path : Str} {e : EntryPtr} {err err' : Err}
    (hentry : getEntry v fuel path err = (.ret (some e), err')) : err' = err := by
  rw [getEntry] at hentry
  split at hentry
  · cases hentry
    rfl
  · obtain ⟨⟨entry, h⟩, t, hlocal, hret⟩ := Call.bind_eq_ret_iff.mp hentry
    cases hret
    have hcall := Call.withLocal_eq_ret_iff.mp hlocal
    rw [Call.bind_eq_ret_iff] at hcall
    obtain ⟨_, u, hopen, hcall⟩ := hcall
    obtain ⟨entry, u', hnext, hloop⟩ := Call.bind_eq_ret_iff.mp hcall
    have hopened := (frames_openBlock _ _).snd_eq hopen
    cases entry with
    | none =>
      cases fuel with
      | zero => cases hloop
      | succ fuel => cases hloop
    | some e' =>
      obtain ⟨h', rfl, -⟩ := nextEntry_some hnext
      exact (getEntryLoop_some hloop).trans hopened

/-- A lookup that has left the error alone has found something. -/
theorem ne_none_of_getEntry {fuel : ℕ} {path : Str}
    (hentry : ∀ err, getEntry v fuel path err = (.ret none, err)) : False := by
  rcases getEntry_none (hentry .none) with h | h
  · cases h
  · cases h

/-! ### Opening something -/

theorem blind_createFile (e : EntryPtr) : (FileHandle.create v e).Blind :=
  .ite (fun _ => (blind_getBlock _).bind fun _ _ => .pure _) fun _ =>
    .ite (fun _ => (blind_getBlock _).bind fun _ _ => (blind_indexAt _ _).bind fun _ _ =>
      (blind_getBlock _).bind fun _ _ => .pure _) fun _ =>
    .ite (fun _ => (blind_getBlock _).bind fun _ _ => (blind_indexAt _ _).bind fun _ _ =>
      (blind_getBlock _).bind fun _ _ => (blind_indexAt _ _).bind fun _ _ =>
      (blind_getBlock _).bind fun _ _ => .pure _) fun _ => .throw _

theorem blind_openFile (fuel : ℕ) (path : Str) : (openFile v fuel path).Blind := by
  refine (blind_getEntry fuel path).bind fun entry _ => ?_
  cases entry with
  | none => exact .pure _
  | some e =>
    exact .ite (fun _ => (Call.Blind.set _).bind fun _ _ => .pure _) fun _ =>
      (blind_createFile e).bind fun _ _ => .pure _

theorem blind_openDirectory (fuel : ℕ) (path : Str) : (openDirectory v fuel path).Blind := by
  refine .ite (fun _ => (blind_create _).bind fun _ _ => .pure _) fun _ =>
    (blind_getEntry fuel path).bind fun entry _ => ?_
  cases entry with
  | none => exact .pure _
  | some e =>
    exact .ite (fun _ => (Call.Blind.set _).bind fun _ _ => .pure _) fun _ =>
      (blind_readBlock _).bind fun _ _ => (blind_create _).bind fun _ _ => .pure _

/-- What could not be opened has left an error behind. -/
theorem ne_none_of_openFile {fuel : ℕ} {path : Str}
    (hopen : ∀ err, openFile v fuel path err = (.ret none, err)) : False := by
  obtain ⟨entry, t, hentry, hrest⟩ := Call.bind_eq_ret_iff.mp (hopen .none)
  cases entry with
  | none =>
    cases hrest
    rcases getEntry_none hentry with h | h
    · cases h
    · cases h
  | some e =>
    simp only [Call.ite_apply] at hrest
    split at hrest
    · cases hrest
    · obtain ⟨_, _, -, hret⟩ := Call.bind_eq_ret_iff.mp hrest
      cases hret

theorem ne_none_of_openDirectory {fuel : ℕ} {path : Str}
    (hopen : ∀ err, openDirectory v fuel path err = (.ret none, err)) : False := by
  have hnone := hopen .none
  rw [openDirectory] at hnone
  split at hnone
  · obtain ⟨_, _, -, hret⟩ := Call.bind_eq_ret_iff.mp hnone
    cases hret
  · obtain ⟨entry, t, hentry, hrest⟩ := Call.bind_eq_ret_iff.mp hnone
    cases entry with
    | none =>
      cases hrest
      rcases getEntry_none hentry with h | h
      · cases h
      · cases h
    | some e =>
      simp only [Call.ite_apply] at hrest
      split at hrest
      · cases hrest
      · simp only [Call.bind_eq_ret_iff] at hrest
        obtain ⟨_, _, -, _, _, -, hret⟩ := hrest
        cases hret

/-! ### The catalogue and the counts -/

theorem blind_formatLine (line : Str) : (formatLine line : Call Exn σ Str).Blind :=
  .ite (fun _ => ⟨.fault, none, fun _ => rfl⟩) fun _ => .pure _

theorem frames_formatLine (line : Str) (x : τ) :
    (formatLine line : Call Exn (τ × σ) Str).Frames x := by
  by_cases hlong : 128 ≤ line.length
  · exact ⟨.fault, x, fun s => by rw [formatLine, if_pos hlong]; rfl⟩
  · exact ⟨.ret line, x, fun s => formatLine_of_lt (Nat.lt_of_not_le hlong) (x, s)⟩

theorem blind_volumeHeader : (v.volumeHeader : Call Exn σ Block).Blind :=
  .ite (fun _ => .throw _) fun _ => .pure _

theorem blind_countBlocksLoop (rounds : ℕ) : ∀ pointer blocks : ℕ,
    (v.countBlocksLoop rounds pointer blocks : Call Exn σ ℤ).Blind := by
  induction rounds with
  | zero =>
    rintro pointer (_ | blocks)
    · exact .pure _
    · exact ⟨.timeout, none, fun _ => rfl⟩
  | succ rounds ih =>
    rintro pointer (_ | blocks)
    · exact .pure _
    · exact (blind_readBlock pointer).bind fun _ _ => (ih _ _).bind fun _ _ => .pure _

theorem blind_countDirectoryLoop (rounds : ℕ) : ∀ pointer numBlocks : ℕ,
    (v.countDirectoryLoop rounds pointer numBlocks : Call Exn σ ℕ).Blind := by
  induction rounds with
  | zero =>
    rintro (_ | pointer) numBlocks
    · exact .pure _
    · exact ⟨.timeout, none, fun _ => rfl⟩
  | succ rounds ih =>
    rintro (_ | pointer) numBlocks
    · exact .pure _
    · exact (blind_readBlock (pointer + 1)).bind fun _ _ => ih _ _

theorem blindAt_catalogLoop (fuel rounds : ℕ) : ∀ (output : Str) (h : DirectoryHandle),
    (catalogLoop v fuel rounds output).BlindAt h := by
  induction rounds with
  | zero =>
    intro output h
    exact ⟨.timeout, h, none, fun _ => rfl⟩
  | succ rounds ih =>
    intro output h
    refine (blindAt_nextEntry fuel h).bind fun entry h₁ _ => ?_
    cases entry with
    | none => exact ⟨.ret output, h₁, none, fun _ => rfl⟩
    | some e => exact (frames_formatLine _ h₁).blindAt.bind fun line h₂ _ => ih _ h₂

theorem blind_catalog (fuel : ℕ) (path : Str) : (catalog v fuel path).Blind := by
  refine (blind_openDirectory fuel _).bind fun dh _ => ?_
  cases dh with
  | none => exact .pure _
  | some dh =>
    exact (blind_volumeHeader.bind fun _ _ => .pure _).bind fun _ _ =>
      (blind_formatLine _).bind fun _ _ => (blind_formatLine _).bind fun _ _ =>
      (blindAt_catalogLoop fuel fuel _ dh).withLocal.bind fun _ _ =>
      (blind_volumeHeader.bind fun _ _ => .pure _).bind fun _ _ =>
      (blind_countBlocksLoop _ _ _).bind fun _ _ => (blind_formatLine _).bind fun _ _ => .pure _

end

/-! ### Callbacks that do not look -/

section
variable (m : Mount) (fuel : ℕ)

theorem blind_statOf (e : EntryPtr) (st : Stat) : (statOf m fuel e st).Blind :=
  .ite (fun _ => (blind_countDirectoryLoop _ _ _).bind fun _ _ => .pure _) fun _ =>
    .ite (fun _ => .pure _) fun _ => .throw _

theorem blind_getattr (path : Str) (st : Stat) : (prodosfsGetattr m fuel path st).Blind := by
  refine .ite (fun _ => .pure _) fun _ => (blind_getEntry fuel _).bind fun entry hentry => ?_
  cases entry with
  | none => exact (ne_none_of_getEntry hentry).elim
  | some e => exact (blind_statOf m fuel e st).bind fun _ _ => .pure _

theorem blind_open (path : Str) : (prodosfsOpen m fuel path).Blind := by
  refine .ite (fun _ => (blind_catalog fuel _).bind fun _ _ => .pure _) fun _ =>
    .ite (fun _ => .throw _) fun _ => (blind_openFile fuel _).bind fun fh hopen => ?_
  cases fh with
  | none => exact (ne_none_of_openFile hopen).elim
  | some h => exact .pure _

theorem blind_opendir (path : Str) : (prodosfsOpendir m fuel path).Blind := by
  refine (blind_openDirectory fuel path).bind fun dh hopen => ?_
  cases dh with
  | none => exact (ne_none_of_openDirectory hopen).elim
  | some dh => exact .pure _

/-! ### Leaving a listing early -/

/-- The loop of `prodosfs_readdir` is left because `filler` has no room for an entry. -/
inductive CutShort (filler : List Str → Str → Bool) : ℕ → List Str → DirectoryHandle → Prop
  | here {rounds : ℕ} {names : List Str} {h h' : DirectoryHandle} {e : EntryPtr}
      (next : ∀ err, DirectoryHandle.nextEntry m.volume fuel (h, err)
        = (.ret (some e), (h', err)))
      (full : filler names (m.listedName e) = true) : CutShort filler (rounds + 1) names h
  | later {rounds : ℕ} {names : List Str} {h h' : DirectoryHandle} {e : EntryPtr}
      (next : ∀ err, DirectoryHandle.nextEntry m.volume fuel (h, err)
        = (.ret (some e), (h', err)))
      (room : filler names (m.listedName e) = false)
      (tail : CutShort filler rounds (names ++ [m.listedName e]) h') :
      CutShort filler (rounds + 1) names h

variable {m fuel} {filler : List Str → Str → Bool}

theorem blindAt_readdirLoop (rounds : ℕ) : ∀ (names : List Str) (h : DirectoryHandle),
    (readdirLoop m fuel filler rounds names).BlindAt h := by
  induction rounds with
  | zero =>
    intro names h
    exact ⟨.timeout, h, none, fun _ => rfl⟩
  | succ rounds ih =>
    intro names h
    refine (blindAt_nextEntry fuel h).bind fun entry h₁ _ => ?_
    cases entry with
    | none => exact ⟨.ret names, h₁, none, fun _ => rfl⟩
    | some e => exact .ite (fun _ => ⟨.ret names, h₁, none, fun _ => rfl⟩) fun _ => ih _ h₁

/-- A listing that is cut short leaves the error alone. The induction is on the rounds. -/
theorem readdirLoop_of_cutShort {rounds : ℕ} {names : List Str} {h : DirectoryHandle}
    (hcut : CutShort m fuel filler rounds names h) :
    ∃ names' h', ∀ err, readdirLoop m fuel filler rounds names (h, err)
      = (.ret names', (h', err)) := by
  induction hcut with
  | @here rounds names h h' e next full =>
    refine ⟨names, h', fun err => ?_⟩
    rw [readdirLoop, Call.bind_of_ret (next err)]
    simp only [Call.ite_apply]
    rw [if_pos (by exact full)]
    rfl
  | @later rounds names h h' e next room tail ih =>
    obtain ⟨names', h'', hloop⟩ := ih
    refine ⟨names', h'', fun err => ?_⟩
    rw [readdirLoop, Call.bind_of_ret (next err)]
    simp only [Call.ite_apply]
    rw [if_neg (by rw [← Mount.listedName, room]; exact Bool.false_ne_true)]
    exact hloop err

/-- A listing that leaves the error alone has been cut short. -/
theorem cutShort_of_ret : ∀ {rounds : ℕ} {names names' : List Str} {h h' : DirectoryHandle},
    readdirLoop m fuel filler rounds names (h, .none) = (.ret names', (h', .none)) →
    CutShort m fuel filler rounds names h := by
  intro rounds
  induction rounds with
  | zero =>
    intro names names' h h' hloop
    cases hloop
  | succ rounds ih =>
    intro names names' h h' hloop
    rw [readdirLoop, Call.bind_eq_ret_iff] at hloop
    obtain ⟨entry, t, hnext, hrest⟩ := hloop
    cases entry with
    | none =>
      obtain ⟨key, -, -, rfl⟩ := nextEntry_none hnext
      cases hrest
    | some e =>
      obtain ⟨h₁, rfl, hnext'⟩ := nextEntry_some hnext
      simp only [Call.ite_apply] at hrest
      split at hrest
      · rename_i hfull
        exact .here hnext' hfull
      · rename_i hroom
        exact .later hnext' (Bool.eq_false_of_not_eq_true hroom) (ih hrest)

/-- **A listing does not depend on the error if and only if** it is not cut short. -/
theorem readdir_result_iff (h : DirectoryHandle) :
    (∀ err err' : Err, (prodosfsReaddir m fuel filler (h, err)).1
        = (prodosfsReaddir m fuel filler (h, err')).1) ↔
      ¬ CutShort m fuel filler fuel (fill filler (fill filler [] (ascii ".")) (ascii "..")) h := by
  constructor
  · rintro hsame hcut
    obtain ⟨names, h', hloop⟩ := readdirLoop_of_cutShort hcut
    have hresult : ∀ err, err ≠ .endOfFile →
        (prodosfsReaddir m fuel filler (h, err)).1 = .ret (-toError err, names) := by
      intro err herr
      rw [prodosfsReaddir, Call.bind_of_ret (hloop err), Call.get_bind_apply]
      simp only [Call.ite_apply, if_pos herr, Call.pure_apply]
    have hdiffer := hsame .none .fileNotFound
    rw [hresult .none (by decide), hresult .fileNotFound (by decide)] at hdiffer
    exact absurd (Prod.mk.inj (Outcome.ret.inj hdiffer)).1 (by decide)
  · intro hnot err err'
    exact Call.BlindAt.result ((blindAt_readdirLoop fuel _ h).bind fun names h' hret =>
      absurd (cutShort_of_ret (hret .none)) hnot) err err'

end

/-! ### Reading nothing -/

section
variable {v : Volume}

theorem blindAt_seekMaster (offset : ℕ) (h : FileHandle) :
    (FileHandle.seekMaster v offset).BlindAt h := by
  refine .get (fun _ => rfl) ?_
  cases h.master with
  | none => exact ⟨.ret offset, h, none, fun _ => rfl⟩
  | some master =>
    exact (frames_indexAt _ _ h).blindAt.bind fun _ h₁ _ =>
      (frames_getBlock _ h₁).blindAt.bind fun index h₂ _ =>
      Call.BlindAt.bind ⟨.ret ⟨⟩, h₂.indexed (some index), none, fun _ => rfl⟩ fun _ h₃ _ =>
      ⟨_, h₃, none, fun _ => rfl⟩

theorem blindAt_seekIndex (offset : ℕ) (h : FileHandle) :
    (FileHandle.seekIndex v offset).BlindAt h := by
  refine .get (fun _ => rfl) ?_
  cases h.index with
  | none => exact ⟨.ret (), h, none, fun _ => rfl⟩
  | some index =>
    exact (frames_indexAt _ _ h).blindAt.bind fun _ h₁ _ =>
      (frames_getBlock _ h₁).blindAt.bind fun data h₂ _ =>
      ⟨.ret ⟨⟩, h₂.filled (some data), none, fun _ => rfl⟩

theorem blindAt_seek (offset whence : ℤ) (h : FileHandle) :
    (FileHandle.seek v offset whence).BlindAt h := by
  refine .ite (fun _ => ⟨.throw _, h, none, fun _ => rfl⟩) fun _ => .get (fun _ => rfl) ?_
  cases h.entry with
  | none => exact ⟨.fault, h, none, fun _ => rfl⟩
  | some e =>
    refine .ite (fun _ => ⟨.ret (-1), h, some .positionOutOfRange, fun _ => rfl⟩) fun _ => ?_
    refine Call.BlindAt.bind ⟨.ret ⟨⟩, { h with position := offset.toNat }, none, fun _ => rfl⟩
      fun _ h₁ _ => (blindAt_seekMaster _ h₁).bind fun o h₂ _ =>
      (blindAt_seekIndex o h₂).bind fun _ h₃ _ => .get (fun _ => rfl) ?_
    exact ⟨.ret h₃.position, h₃, none, fun _ => rfl⟩

/-- A seek that fails says why. -/
theorem seek_neg {offset pos : ℤ} {s t : FileHandle × Err}
    (hseek : FileHandle.seek v offset seekSet s = (.ret pos, t)) (hneg : pos < 0) :
    t.2 = .positionOutOfRange := by
  rw [FileHandle.seek, if_neg (by simp), Call.get_bind_apply] at hseek
  cases hentry : s.1.entry with
  | none =>
    simp only [hentry] at hseek
    cases hseek
  | some e =>
    simp only [hentry, Call.ite_apply] at hseek
    split at hseek
    · cases hseek
      rfl
    · simp only [Call.bind_eq_ret_iff] at hseek
      obtain ⟨_, _, -, _, _, -, _, _, -, h, _, -, hret⟩ := hseek
      cases hret
      omega

theorem blindAt_readLoop (rounds : ℕ) : ∀ (size : ℕ) (h : FileHandle),
    (FileHandle.readLoop v rounds size).BlindAt h := by
  induction rounds with
  | zero =>
    rintro (_ | size) h
    · exact ⟨.ret [], h, none, fun _ => rfl⟩
    · exact ⟨.timeout, h, none, fun _ => rfl⟩
  | succ rounds ih =>
    rintro (_ | size) h
    · exact ⟨.ret [], h, none, fun _ => rfl⟩
    refine .get (fun _ => rfl) ?_
    cases h.data with
    | none => exact ⟨.fault, h, none, fun _ => rfl⟩
    | some data =>
      exact (blindAt_seek _ _ h).bind fun _ h₁ _ => (ih _ h₁).bind fun _ h₂ _ =>
        ⟨_, h₂, none, fun _ => rfl⟩

/-- The buffer is filled, wherever the bytes come from. -/
theorem length_of_readLoop : ∀ {rounds size : ℕ} {bytes : Str} {s t : FileHandle × Err},
    FileHandle.readLoop v rounds size s = (.ret bytes, t) → bytes.length = size := by
  intro rounds
  induction rounds with
  | zero =>
    rintro (_ | size) bytes s t hread
    · cases hread
      rfl
    · cases hread
  | succ rounds ih =>
    rintro (_ | size) bytes s t hread
    · cases hread
      rfl
    rw [FileHandle.readLoop, Call.get_bind_apply] at hread
    cases hdata : s.1.data with
    | none =>
      simp only [hdata] at hread
      cases hread
    | some data =>
      simp only [hdata, Call.bind_eq_ret_iff] at hread
      obtain ⟨_, _, -, rest, _, hrest, hret⟩ := hread
      cases hret
      rw [List.length_append, length_bytesAt, ih hrest]
      omega

/-- **Filling a buffer does not depend on the error** unless the buffer has no room and the handle
is not at the end of the file. -/
theorem blindAt_readBuffer {size : ℕ} {h : FileHandle}
    (hsize : size ≠ 0 ∨ ∀ e, h.entry = some e → h.position = Entry.eof (v.entry e)) :
    (readBuffer v size).BlindAt h := by
  have hrest : ∀ (buf : Str) (h : FileHandle), Call.BlindAt (σ := Err) (do
      let type ← FileHandle.type v
      if textMode = .unix ∧ type = fileTypeText then
        if 2 ^ 31 ≤ buf.length then Call.fault
        else pure (toInt buf.length, buf.map toUnixText)
      else pure (toInt buf.length, buf)) h := by
    intro buf h
    have htype : (FileHandle.type v).BlindAt h := by
      refine .get (fun _ => rfl) ?_
      cases h.entry with
      | none => exact ⟨.fault, h, none, fun _ => rfl⟩
      | some e => exact ⟨_, h, none, fun _ => rfl⟩
    exact htype.bind fun type h₁ _ => .ite (fun _ => .ite
      (fun _ => ⟨.fault, h₁, none, fun _ => rfl⟩) fun _ => ⟨_, h₁, none, fun _ => rfl⟩) fun _ =>
      ⟨_, h₁, none, fun _ => rfl⟩
  refine (blindAt_readLoop size size h).bind fun buf h₁ hread => ?_
  have hlength := length_of_readLoop (hread .none)
  refine .ite (fun hnothing => ?_) fun hbytes => ?_
  · obtain rfl : size = 0 := hlength.symm.trans hnothing
    cases hread .none
    have heof : (FileHandle.eof v).BlindAt h := by
      refine .get (fun _ => rfl) ?_
      cases h.entry with
      | none => exact ⟨.fault, h, none, fun _ => rfl⟩
      | some e => exact ⟨_, h, none, fun _ => rfl⟩
    refine heof.bind fun eof h₂ hret => .ite (fun hfalse => ?_) fun _ => hrest _ h₂
    -- the handle is at the end of the file
    have hnone := hret .none
    rw [FileHandle.eof, Call.get_bind_apply] at hnone
    cases hentry : h.entry with
    | none =>
      simp only [hentry] at hnone
      cases hnone
    | some e =>
      simp only [hentry] at hnone
      rw [hsize.resolve_left (not_not.mpr rfl) e hentry, beq_self_eq_true, hfalse] at hnone
      cases hnone
  · refine Call.BlindAt.bind ⟨.ret true, h₁, none, fun _ => rfl⟩ fun eof h₂ hret =>
      .ite (fun hfalse => ?_) fun _ => hrest _ h₂
    cases hret .none
    cases hfalse

/-- A handle that calls have returned to, and a request for a part of its file. -/
theorem readFile_result_iff {e : EntryPtr} {h h' : FileHandle} {err₀ err₁ err₂ : Err}
    {ops : List FileOp} (hopen : FileHandle.create v e err₀ = (.ret h, err₁))
    (hrun : Call.Returns (FileOp.exec v) (h, err₁) ops (h', err₂)) (size : ℕ) (off : ℤ) :
    (∀ err err' : Err, (readFile v size off (h', err)).1 = (readFile v size off (h', err')).1) ↔
      ¬ (size = 0 ∧ ∃ q : ℕ, off = q ∧ q < Entry.eof (v.entry e) ∧ v.Seekable e q) := by
  obtain ⟨hfile, hp, hcoherent⟩ := exists_handleAt hopen hrun
  constructor
  · rintro hsame ⟨rfl, q, rfl, hlt, hreach⟩
    have hresult : ∀ err, (readFile v 0 q (h', err)).1 = .ret (-toError err, []) := by
      intro err
      have hseek : FileHandle.seek v q seekSet (h', err) = (.ret q, (handleAt v e q, err)) := by
        rw [hcoherent]
        exact (seek_eq_ret_iff hfile hlt.le).mpr ⟨hreach, rfl, rfl⟩
      have hread : FileHandle.read v 0 (handleAt v e q, err) = (.ret [], (handleAt v e q, err)) :=
        rfl
      rw [readFile, Call.bind_of_ret hseek, Call.ite_apply, if_neg (by omega),
        readBuffer_of_ret rfl hread, if_pos ⟨rfl, hlt.ne⟩]
    have hdiffer := hsame .none .fileNotFound
    rw [hresult, hresult] at hdiffer
    exact absurd (Prod.mk.inj (Outcome.ret.inj hdiffer)).1 (by decide)
  · intro hnot err err'
    refine Call.BlindAt.result ((blindAt_seek off seekSet h').bind fun pos h₁ hseek =>
      .ite (fun hneg => ?_) fun hpos => blindAt_readBuffer ?_) err err'
    · cases seek_neg (hseek .none) hneg
    · rw [or_iff_not_imp_left, not_not]
      rintro rfl e' hentry
      have hnone := hseek .none
      rw [hcoherent] at hnone
      rcases seek_eq_ret hfile hnone with ⟨q, rfl, hq, -, hs⟩ | ⟨-, rfl, -⟩
      · cases hs
        cases hentry
        refine le_antisymm hq (Nat.le_of_not_lt fun hlt => hnot ⟨rfl, q, rfl, hlt, ?_⟩)
        exact ((seek_eq_ret_iff hfile hq).mp hnone).1
      · exact absurd (by decide : (-1 : ℤ) < 0) hpos

end

/-! ### The callbacks -/

/-- The answer of a call that works on `x` does not depend on the error. -/
def Steady {τ α : Type} (call : Call Exn (τ × Err) α) (x : τ) : Prop :=
  ∀ err err' : Err, (call (x, err)).1 = (call (x, err')).1

/-- A handle on the file of `e` that `prodosfs_open` has made, and that calls have returned to. -/
def Volume.HandleOn (v : Volume) (e : EntryPtr) (h : FileHandle) : Prop :=
  ∃ h₀ err₀ err₁ err ops, FileHandle.create v e err₀ = (.ret h₀, err₁) ∧
    Call.Returns (FileOp.exec v) (h₀, err₁) ops (h, err)

section
variable (m : Mount) (fuel : ℕ)

theorem steady_read_catalog (path : Str) (bufsiz : ℕ) (off : ℤ) (text : Option Str) :
    Steady (prodosfsRead m path bufsiz off) (.catalog text) := by
  refine fun err err' => Call.BlindAt.result (.ite (fun _ => .get (fun _ => rfl) ?_) fun _ =>
    ⟨.fault, .catalog text, none, fun _ => rfl⟩) err err'
  cases text with
  | none => exact ⟨.fault, _, none, fun _ => rfl⟩
  | some text =>
    refine Call.BlindAt.bind (.ite (fun _ => ⟨.throw _, _, none, fun _ => rfl⟩) fun _ =>
      ⟨.ret _, .catalog (some text), none, fun _ => rfl⟩) fun buf fh _ =>
        ⟨_, fh, none, fun _ => rfl⟩

/-- A read depends on the error when it is one for no bytes inside the file. -/
theorem steady_read_file_iff {e : EntryPtr} {h : FileHandle} (hh : m.volume.HandleOn e h)
    (path : Str) (bufsiz : ℕ) (off : ℤ) :
    Steady (prodosfsRead m path bufsiz off) (.file h) ↔
      ¬ (virtualFileId path = .none ∧ bufsiz = 0 ∧
        ∃ q : ℕ, off = q ∧ q < Entry.eof (m.volume.entry e) ∧ m.volume.Seekable e q) := by
  obtain ⟨h₀, err₀, err₁, err₂, ops, hopen, hrun⟩ := hh
  cases hid : virtualFileId path with
  | catalog =>
    refine ⟨fun _ h => absurd h.1 (by decide), fun _ err err' => ?_⟩
    rw [prodosfsRead, if_pos ⟨by decide, by simp [hid]⟩]
    rfl
  | none =>
    have hiff := readFile_result_iff hopen hrun bufsiz off
    rw [Steady, prodosfsRead, if_neg (by simp [hid])]
    simp only [true_and]
    exact hiff

/-- **Which callbacks depend on the error, and when.** `prodosfs_getattr`, `prodosfs_open` and
`prodosfs_opendir` never do; `prodosfs_read` does when it is asked for no bytes at an offset inside
a file, and `prodosfs_readdir` when its filler runs full. -/
theorem error_irrelevant_iff :
    (∀ path st, ∀ err err' : Err,
      (prodosfsGetattr m fuel path st err).1 = (prodosfsGetattr m fuel path st err').1) ∧
    (∀ path, ∀ err err' : Err,
      (prodosfsOpen m fuel path err).1 = (prodosfsOpen m fuel path err').1) ∧
    (∀ path, ∀ err err' : Err,
      (prodosfsOpendir m fuel path err).1 = (prodosfsOpendir m fuel path err').1) ∧
    (∀ path bufsiz off text, Steady (prodosfsRead m path bufsiz off) (.catalog text)) ∧
    (∀ e h, m.volume.HandleOn e h → ∀ path bufsiz off,
      (Steady (prodosfsRead m path bufsiz off) (.file h) ↔
        ¬ (virtualFileId path = .none ∧ bufsiz = 0 ∧
          ∃ q : ℕ, off = q ∧ q < Entry.eof (m.volume.entry e) ∧ m.volume.Seekable e q))) ∧
    ∀ filler dh, Steady (prodosfsReaddir m fuel filler) dh ↔
      ¬ CutShort m fuel filler fuel (fill filler (fill filler [] (ascii ".")) (ascii "..")) dh :=
  ⟨fun path st => (blind_getattr m fuel path st).result,
    fun path => (blind_open m fuel path).result, fun path => (blind_opendir m fuel path).result,
    steady_read_catalog m, fun _ _ => steady_read_file_iff m, fun _ => readdir_result_iff⟩

end

/-! ### Two requests that depend on the error -/

theorem handleOn_small : smallVolume.HandleOn textFile (handleAt smallVolume textFile 0) :=
  ⟨handleAt smallVolume textFile 0, .none, .none, .none, [], by rfl, .nil _⟩

/-- A filler without room for an entry. -/
def fullFiller : List Str → Str → Bool := fun names _ => decide (2 ≤ names.length)

/-- Reading a byte does not depend on the error, reading none does, and so does a listing without
room for the first entry. -/
theorem error_irrelevant_iff_small :
    Steady (prodosfsRead (smallMount .on) (ascii "/T") 1 0)
        (.file (handleAt smallVolume textFile 0)) ∧
      ¬ Steady (prodosfsRead (smallMount .on) (ascii "/T") 0 0)
        (.file (handleAt smallVolume textFile 0)) ∧
      ¬ Steady (prodosfsReaddir (smallMount .on) 28 fullFiller) (.opened (.image 1024)) := by
  obtain ⟨-, -, -, -, hread, hreaddir⟩ := error_irrelevant_iff (smallMount .on) 28
  refine ⟨(hread textFile _ handleOn_small _ _ _).mpr fun h => absurd h.2.1 (by decide),
    fun hsteady => ?_, fun hsteady => ?_⟩
  · exact (hread textFile _ handleOn_small _ _ _).mp hsteady
      ⟨by decide, rfl, 0, rfl, by decide, .of_seedling (by decide) 0⟩
  · have hslots : activeSlots smallVolume (.image 1024) [.image 1536]
        = [textFile, ⟨.image 1536, 12⟩] := by decide
    have hr : Remaining smallVolume 28 (.image 1024) (.opened (.image 1024))
        [textFile, ⟨.image 1536, 12⟩] := hslots ▸ blockChain_small.remaining (by decide)
    cases hr.iterates (by decide) with
    | cons head _ => exact (hreaddir fullFiller _).mp hsteady (.here head (by decide))

/-- The error left by an earlier request is the answer to a read of no bytes. -/
theorem not_error_irrelevant_small :
    ¬ ∀ (m : Mount) (fuel : ℕ), m.volume.Accepted →
      (∀ path st, ∀ err err' : Err,
        (prodosfsGetattr m fuel path st err).1 = (prodosfsGetattr m fuel path st err').1) ∧
      (∀ path, ∀ err err' : Err,
        (prodosfsOpen m fuel path err).1 = (prodosfsOpen m fuel path err').1) ∧
      (∀ path, ∀ err err' : Err,
        (prodosfsOpendir m fuel path err).1 = (prodosfsOpendir m fuel path err').1) ∧
      (∀ path bufsiz off text, Steady (prodosfsRead m path bufsiz off) (.catalog text)) ∧
      (∀ e h, m.volume.HandleOn e h → ∀ path bufsiz off,
        Steady (prodosfsRead m path bufsiz off) (.file h)) ∧
      ∀ filler dh, Steady (prodosfsReaddir m fuel filler) dh := by
  intro hclaim
  obtain ⟨-, -, -, -, hread, -⟩ := hclaim (smallMount .on) 28 accepted_small
  have hsame := hread textFile _ handleOn_small (ascii "/T") 0 0 .none .fileNotFound
  have hnone : (prodosfsRead (smallMount .on) (ascii "/T") 0 0
      (.file (handleAt smallVolume textFile 0), .none)).1 = .ret (0, []) := by rfl
  have hnotFound : (prodosfsRead (smallMount .on) (ascii "/T") 0 0
      (.file (handleAt smallVolume textFile 0), .fileNotFound)).1 = .ret (-2, []) := by rfl
  rw [hnone, hnotFound] at hsame
  cases hsame

end Prodosfs
