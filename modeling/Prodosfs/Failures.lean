import Prodosfs.Ends

/-!
# Seeks that fail

`Seek` sets the position of a handle first, and then looks up the block of data that belongs to it.
When one of the numbers on the way is no good, an exception leaves the new position with the old
block. `Read` copies from that block the next time, as if it were the one at the position.

A caller that goes on after an exception is therefore safe as long as it has not met a position that
cannot be reached. A read seeks, too, once for each block that it copies from. Its seeks are listed
by a relation, `ReadSeeks`, as they have no trace in what it returns; that they are those of the
loop is proved both ways.

## Main definitions

* `FileCall` — a call of `Seek` or of `Read`
* `FileCall.Seeks` — the calls of `Seek` that it is made of
* `Kept` — every seek that fails leaves the handle alone, and the block of data is always the one at
  the position
* `Safe` — what a call needs for that

## Main results

* `ReadSeeks.readLoop_eq`, `readLoop_snd` — the seeks of a read are those of its loop
* `kept_iff_safe` — one call
* `seek_failures_iff` — any sequence of calls
-/

namespace Prodosfs

/-- A call on an open file. -/
inductive FileCall where
  | seek (offset whence : ℤ)
  | read (size : ℕ)

/-- Carry out a call; what it returns is dropped. -/
def FileCall.exec (v : Volume) : FileCall → Call Exn (FileHandle × Err) Unit
  | .seek offset whence => do
    let _ ← FileHandle.seek v offset whence
    pure ()
  | .read size => do
    let _ ← FileHandle.read v size
    pure ()

/-- A read of `size` bytes calls `Seek` with an offset, in a state in which it has just copied from
the block of data. -/
inductive ReadSeeks (v : Volume) : ℕ → FileHandle × Err → ℤ → FileHandle × Err → Prop
  | here {size : ℕ} {s : FileHandle × Err} (pos : 0 < size) (data : s.1.data ≠ none) :
      ReadSeeks v size s ((s.1.position + min size (512 - s.1.position % 512) : ℕ) : ℤ) s
  | later {size : ℕ} {s t u : FileHandle × Err} {r offset : ℤ} (pos : 0 < size)
      (data : s.1.data ≠ none)
      (seek : FileHandle.seek v
        ((s.1.position + min size (512 - s.1.position % 512) : ℕ) : ℤ) seekSet s = (.ret r, t))
      (tail : ReadSeeks v (size - min size (512 - s.1.position % 512)) t offset u) :
      ReadSeeks v size s offset u

/-- A call that is made in the state `s` calls `Seek` with an offset, in the state `t`. -/
inductive FileCall.Seeks (v : Volume) (s : FileHandle × Err) :
    FileCall → ℤ → ℤ → FileHandle × Err → Prop
  | seek (offset whence : ℤ) : Seeks v s (.seek offset whence) offset whence s
  | read {size : ℕ} {offset : ℤ} {t : FileHandle × Err} (h : ReadSeeks v size s offset t) :
      Seeks v s (.read size) offset seekSet t

/-- `Seek` returns -1 or throws. -/
def SeekFails : Outcome Exn ℤ → Prop
  | .ret r => r = -1
  | .throw _ => True
  | .fault => False
  | .timeout => False

/-- What is to hold of a call. -/
structure Kept (v : Volume) (e : EntryPtr) (s : FileHandle × Err) (call : FileCall) : Prop where
  /-- Wherever it seeks, and has copied, the block of data is the one at the position. -/
  coherent : ∀ offset whence t, call.Seeks v s offset whence t → Coherent v e t.1
  /-- A seek that fails leaves the handle alone. -/
  unchanged : ∀ offset whence t, call.Seeks v s offset whence t →
    SeekFails (FileHandle.seek v offset whence t).1 →
      (FileHandle.seek v offset whence t).2.1 = t.1
  /-- What is read inside the file is the content. -/
  content : ∀ size bytes t, call = .read size → s.1.position + size ≤ Entry.eof (v.entry e) →
    FileHandle.read v size s = (.ret bytes, t) → bytes = v.slice e s.1.position size
  /-- In the state that is left, the block of data is the one at the position. -/
  left : Coherent v e (call.exec v s).2.1

/-- No position of the file is sought that cannot be reached. -/
def Safe (v : Volume) (e : EntryPtr) (s : FileHandle × Err) : FileCall → Prop
  | .seek offset whence => whence = seekSet → 0 ≤ offset →
      offset ≤ Entry.eof (v.entry e) → v.Seekable e offset.toNat
  | .read size => ∀ q, Stop s.1.position size q → q ≤ Entry.eof (v.entry e) → v.Seekable e q

/-- The handle is at a position of the file that can be reached. -/
def Reached (v : Volume) (e : EntryPtr) (h : FileHandle) : Prop :=
  ∃ p ≤ Entry.eof (v.entry e), v.Seekable e p ∧ h = handleAt v e p

section
variable {v : Volume} {e : EntryPtr} {p q : ℕ} {err : Err}

/-! ### Positions that can be reached -/

/-- The positions of a block can be reached together. -/
theorem Volume.Seekable.of_same_block (hp : v.Seekable e p) (hq : q / 512 = p / 512) :
    v.Seekable e q := by
  have hbig : q / 131072 = p / 131072 := by omega
  have hmid : q % 131072 / 512 = p % 131072 / 512 := by omega
  have hdata : v.dataBlock e q = v.dataBlock e p := by
    simp only [Volume.dataBlock, hq, hbig, hmid]
  have hoffset : v.indexOffset e q / 512 = v.indexOffset e p / 512 := by
    rw [Volume.indexOffset, Volume.indexOffset]
    split
    · exact hmid
    · exact hq
  refine ⟨fun htree => ?_, fun hne => ?_⟩
  · rw [hbig]
    exact hp.index htree
  · rw [hoffset, hdata]
    exact hp.data hne

/-! ### One seek -/

/-- The call ends, and leaves the position and the error alone. -/
def KeepsPosition {α : Type} (m : Call Exn (FileHandle × Err) α) (h : FileHandle) (err : Err) :
    Prop :=
  ∃ h', h'.position = h.position ∧
    ((∃ a, m (h, err) = (.ret a, (h', err))) ∨ ∃ ex, m (h, err) = (.throw ex, (h', err)))

/-- What begins with looking up a pointer and its block. -/
theorem keepsPosition_lookup {α : Type} (block : BlockPtr) (i : ℕ)
    {f : BlockPtr → Call Exn (FileHandle × Err) α} {h : FileHandle} {err : Err}
    (hf : ∀ b, KeepsPosition (f b) h err) :
    KeepsPosition (do
      let pointer ← v.indexAt block i
      let b ← v.getBlock pointer
      f b) h err := by
  rw [KeepsPosition]
  rcases Nat.lt_or_ge i 256 with hlt | hge
  · rw [Call.bind_of_ret (indexAt_of_lt hlt block (h, err))]
    by_cases hrange : v.InRange (v.pointerIn block i)
    · rw [Call.bind_of_ret (Volume.getBlock_of_lt hrange (h, err))]
      exact hf _
    · obtain ⟨h0, hge⟩ := not_or.mp hrange
      exact ⟨h, rfl, Or.inr ⟨_, Call.bind_of_throw
        (Volume.getBlock_of_ge h0 (Nat.not_lt.mp hge) (h, err))⟩⟩
  · have hthrow : v.indexAt block i (h, err)
        = (.throw (.logicError "invalid index"), (h, err)) := by
      rw [Volume.indexAt, if_pos (by omega)]
      rfl
    exact ⟨h, rfl, Or.inr ⟨_, Call.bind_of_throw hthrow⟩⟩

theorem keepsPosition_seekMaster (h : FileHandle) (offset : ℕ) (err : Err) :
    KeepsPosition (FileHandle.seekMaster v offset) h err := by
  rw [KeepsPosition, FileHandle.seekMaster, Call.get_bind_apply]
  cases hmaster : h.master with
  | none => exact ⟨h, rfl, Or.inl ⟨offset, by simp only [hmaster]; rfl⟩⟩
  | some master =>
    simp only [hmaster]
    exact keepsPosition_lookup master _ fun b => ⟨h.indexed (some b), rfl, Or.inl ⟨_, rfl⟩⟩

theorem keepsPosition_seekIndex (h : FileHandle) (offset : ℕ) (err : Err) :
    KeepsPosition (FileHandle.seekIndex v offset) h err := by
  rw [KeepsPosition, FileHandle.seekIndex, Call.get_bind_apply]
  cases hindex : h.index with
  | none => exact ⟨h, rfl, Or.inl ⟨(), by simp only [hindex]; rfl⟩⟩
  | some index =>
    simp only [hindex]
    exact keepsPosition_lookup index _ fun b => ⟨h.filled (some b), rfl, Or.inl ⟨_, rfl⟩⟩

/-- **A seek to a position of the file that cannot be reached throws, and has moved there.** -/
theorem seek_of_not_seekable (hfile : Entry.isFile (v.entry e)) (hq : q ≤ Entry.eof (v.entry e))
    (hnot : ¬ v.Seekable e q) (p : ℕ) (err : Err) :
    ∃ ex h', FileHandle.seek v q seekSet (handleAt v e p, err) = (.throw ex, (h', err)) ∧
      h'.position = q := by
  have hin : ¬ ((q : ℤ) < 0 ∨ (Entry.eof (v.entry e) : ℤ) < q) := by omega
  have hentry : (handleAt v e p).entry = some e := rfl
  have hnever : ∀ r s, FileHandle.seek v q seekSet (handleAt v e p, err) ≠ (.ret r, s) :=
    fun r s hseek => hnot ((seek_eq_ret_iff hfile hq).mp hseek).1
  rw [FileHandle.seek, if_neg (by simp), Call.get_bind_apply] at hnever ⊢
  simp only [hentry, if_neg hin, Int.toNat_natCast, Call.modify_bind_apply] at hnever ⊢
  obtain ⟨h₁, hpos₁, ⟨o, hm⟩ | ⟨ex, hm⟩⟩ := keepsPosition_seekMaster (v := v)
    ⟨some e, (handleAt v e p).master, (handleAt v e p).index, (handleAt v e p).data, q⟩ q err
  · rw [Call.bind_of_ret hm] at hnever ⊢
    obtain ⟨h₂, hpos₂, ⟨u, hi⟩ | ⟨ex, hi⟩⟩ := keepsPosition_seekIndex (v := v) h₁ o err
    · rw [Call.bind_of_ret hi] at hnever
      exact absurd rfl (hnever _ _)
    · exact ⟨ex, h₂, Call.bind_of_throw hi, hpos₂.trans hpos₁⟩
  · exact ⟨ex, h₁, Call.bind_of_throw hm, hpos₁⟩

/-- What a seek needs to leave the handle alone when it fails, wherever the handle has got to. -/
theorem seek_unchanged_iff (hfile : Entry.isFile (v.entry e)) (hreach : v.Seekable e p)
    (offset whence : ℤ) (err : Err) :
    (SeekFails (FileHandle.seek v offset whence (handleAt v e p, err)).1 →
      (FileHandle.seek v offset whence (handleAt v e p, err)).2.1 = handleAt v e p) ↔
      Safe v e (handleAt v e p, err) (.seek offset whence) := by
  by_cases hwhence : whence = seekSet
  swap
  · rw [FileHandle.seek, if_pos hwhence]
    exact ⟨fun _ h => absurd h hwhence, fun _ _ => rfl⟩
  subst hwhence
  by_cases hout : offset < 0 ∨ (Entry.eof (v.entry e) : ℤ) < offset
  · rw [seek_of_out hout]
    exact ⟨fun _ _ h0 hle => by omega, fun _ _ => rfl⟩
  obtain ⟨q, rfl⟩ : ∃ q : ℕ, offset = q := ⟨offset.toNat, by omega⟩
  have hq : q ≤ Entry.eof (v.entry e) := by omega
  rw [Safe, Int.toNat_natCast]
  by_cases hseekable : v.Seekable e q
  · rw [(seek_eq_ret_iff hfile hq).mpr ⟨hseekable, rfl, rfl⟩]
    refine ⟨fun _ _ _ _ => hseekable, fun _ hfails => ?_⟩
    -- the position that is returned is not -1
    have hminus : (q : ℤ) = -1 := hfails
    omega
  · obtain ⟨ex, h', hthrow, hposition⟩ := seek_of_not_seekable hfile hq hseekable p err
    rw [hthrow]
    constructor
    · intro hunchanged
      have hsame : q = p := hposition.symm.trans (congrArg FileHandle.position (hunchanged trivial))
      exact absurd (hsame ▸ hreach) hseekable
    · exact fun hsafe => absurd (hsafe rfl (by omega) (by omega)) hseekable

/-! ### The seeks of a read -/

/-- A round of a read. -/
theorem readLoop_round {size : ℕ} {s : FileHandle × Err} (hsize : 0 < size)
    (hdata : s.1.data ≠ none) (rounds : ℕ) : ∃ front,
    FileHandle.readLoop v (rounds + 1) size s = (do
      let _ ← FileHandle.seek v
        ((s.1.position + min size (512 - s.1.position % 512) : ℕ) : ℤ) seekSet
      let rest ← FileHandle.readLoop v rounds (size - min size (512 - s.1.position % 512))
      pure (front ++ rest)) s := by
  obtain ⟨size, rfl⟩ := Nat.exists_eq_succ_of_ne_zero hsize.ne'
  obtain ⟨data, hdata⟩ := Option.ne_none_iff_exists'.mp hdata
  exact ⟨_, FileHandle.readLoop_succ hdata rounds size s.2⟩

/-- **These are seeks of the read:** it goes on with each of them, in the state that goes with it.
The induction is on the seeks. -/
theorem ReadSeeks.readLoop_eq {size : ℕ} {s t : FileHandle × Err} {offset : ℤ}
    (hseeks : ReadSeeks v size s offset t) : ∀ {rounds : ℕ}, size ≤ rounds →
      ∃ bytes rounds' left, FileHandle.readLoop v rounds size s = (do
        let _ ← FileHandle.seek v offset seekSet
        let rest ← FileHandle.readLoop v rounds' left
        pure (bytes ++ rest)) t := by
  induction hseeks with
  | here hpos hdata =>
    intro rounds hrounds
    obtain ⟨rounds, rfl⟩ := Nat.exists_eq_succ_of_ne_zero (show rounds ≠ 0 by omega)
    obtain ⟨front, hround⟩ := readLoop_round hpos hdata rounds
    exact ⟨front, rounds, _, hround⟩
  | @later size s t u r offset hpos hdata hseek _ ih =>
    intro rounds hrounds
    obtain ⟨rounds, rfl⟩ := Nat.exists_eq_succ_of_ne_zero (show rounds ≠ 0 by omega)
    obtain ⟨front, hround⟩ := readLoop_round hpos hdata rounds
    have hmod := Nat.mod_lt s.1.position (show 0 < 512 by decide)
    obtain ⟨bytes, rounds', left, hrest⟩ := @ih rounds (by omega)
    refine ⟨front ++ bytes, rounds', left, ?_⟩
    rw [hround, Call.bind_of_ret hseek, Call.bind_apply, hrest]
    simp only [Call.bind_apply]
    rcases FileHandle.seek v offset seekSet u with ⟨r' | ex | _ | _, u'⟩
    · rcases hread : FileHandle.readLoop v rounds' left u' with ⟨rest | ex | _ | _, t'⟩
      · simp only [hread, Call.pure_apply, List.append_assoc]
      all_goals simp only [hread]
    all_goals rfl

/-- A read that has nothing left to do, or no block to copy from. -/
theorem readLoop_snd_of_end {rounds size : ℕ} {s : FileHandle × Err}
    (hend : size = 0 ∨ s.1.data = none) (hrounds : size ≤ rounds) :
    (FileHandle.readLoop v rounds size s).2 = s := by
  match rounds, size, hend with
  | rounds, 0, _ => cases rounds <;> rfl
  | rounds + 1, size + 1, Or.inr hdata =>
    simp only [FileHandle.readLoop, Call.get_bind_apply, hdata]
    rfl

/-- **And these are all of them:** the read leaves what the last one does. The induction is on the
bound. -/
theorem readLoop_snd : ∀ {rounds size : ℕ} {s : FileHandle × Err}, size ≤ rounds → 0 < size →
    s.1.data ≠ none → ∃ offset t, ReadSeeks v size s offset t ∧
      (FileHandle.readLoop v rounds size s).2 = (FileHandle.seek v offset seekSet t).2 := by
  intro rounds
  induction rounds with
  | zero => exact fun hrounds hsize => absurd hrounds (Nat.not_le.mpr hsize)
  | succ rounds ih =>
    intro size s hrounds hsize hdata
    have hmod := Nat.mod_lt s.1.position (show 0 < 512 by decide)
    obtain ⟨front, hround⟩ := readLoop_round (v := v) hsize hdata rounds
    obtain ⟨left, hleft⟩ : ∃ left, left = size - min size (512 - s.1.position % 512) := ⟨_, rfl⟩
    rw [hround, ← hleft]
    rcases hseek : FileHandle.seek v
      ((s.1.position + min size (512 - s.1.position % 512) : ℕ) : ℤ) seekSet s with ⟨o, t⟩
    cases o with
    | ret r =>
      rw [Call.bind_of_ret hseek, Call.bind_snd fun _ _ => rfl]
      by_cases hend : left = 0 ∨ t.1.data = none
      · rw [readLoop_snd_of_end hend (by omega)]
        exact ⟨_, s, .here hsize hdata, by rw [hseek]⟩
      · obtain ⟨hmore, hblock⟩ := not_or.mp hend
        obtain ⟨offset, u, hseeks, hsnd⟩ :=
          @ih left t (by omega) (Nat.pos_of_ne_zero hmore) hblock
        subst hleft
        exact ⟨offset, u, .later hsize hdata hseek hseeks, hsnd⟩
    | _ =>
      rw [Call.bind_snd_of_ne_ret hseek fun _ => nofun]
      exact ⟨_, s, .here hsize hdata, by rw [hseek]⟩

/-- The stops of a read that are in the file can be reached. -/
def ReadSafe (v : Volume) (e : EntryPtr) (p size : ℕ) : Prop :=
  ∀ q, Stop p size q → q ≤ Entry.eof (v.entry e) → v.Seekable e q

/-- What is left of a read when its first seek has returned. -/
theorem readSafe_iff {size n : ℕ} (hsize : 0 < size) (hn : n = min size (512 - p % 512))
    (hend : p + n ≤ Entry.eof (v.entry e)) :
    ReadSafe v e p size ↔ v.Seekable e (p + n) ∧ ReadSafe v e (p + n) (size - n) := by
  subst hn
  constructor
  · intro hsafe
    exact ⟨hsafe _ ((stop_iff hsize).mpr (Or.inl rfl)) hend,
      fun q hq => hsafe q ((stop_iff hsize).mpr (Or.inr hq))⟩
  · rintro ⟨hfirst, hrest⟩ q hq hle
    obtain rfl | hq := (stop_iff hsize).mp hq
    · exact hfirst
    · exact hrest q hq hle

/-- What is left of a read when its first seek has been refused. Until its end the handle stays in
the block. -/
theorem readSafe_of_out {size n : ℕ} (hreach : v.Seekable e p)
    (hn : n = min size (512 - p % 512)) (hout : Entry.eof (v.entry e) < p + n) :
    ReadSafe v e p (size - n) := by
  rintro q ⟨hlt, hle, hstop⟩ hq
  have hmod := Nat.mod_lt p (show 0 < 512 by decide)
  exact hreach.of_same_block (by omega)

/-- The first seek of a read. -/
theorem readSeek_cases (hfile : Entry.isFile (v.entry e)) (hreach : v.Seekable e p) {size n : ℕ}
    (hsize : 0 < size) (hn : n = min size (512 - p % 512)) (hsafe : ReadSafe v e p size)
    (hp : p ≤ Entry.eof (v.entry e)) (err : Err) :
    ∃ r p' err', FileHandle.seek v (p + n : ℕ) seekSet (handleAt v e p, err)
        = (.ret r, (handleAt v e p', err')) ∧
      p' ≤ Entry.eof (v.entry e) ∧ v.Seekable e p' ∧ ReadSafe v e p' (size - n) := by
  by_cases hend : p + n ≤ Entry.eof (v.entry e)
  · obtain ⟨hfirst, hrest⟩ := (readSafe_iff hsize hn hend).mp hsafe
    exact ⟨_, p + n, err, (seek_eq_ret_iff hfile hend).mpr ⟨hfirst, rfl, rfl⟩, hend, hfirst, hrest⟩
  · have hout : Entry.eof (v.entry e) < p + n := Nat.not_le.mp hend
    exact ⟨-1, p, .positionOutOfRange, seek_of_out (Or.inr (by exact_mod_cast hout)) p err, hp,
      hreach, readSafe_of_out hreach hn hout⟩

/-- In a read whose stops can be reached, every seek starts from a position that has been reached,
and goes to one that can be, or is refused. The induction is on the seeks. -/
theorem readSeeks_safe (hfile : Entry.isFile (v.entry e)) {size : ℕ} {s t : FileHandle × Err}
    {offset : ℤ} (hseeks : ReadSeeks v size s offset t) : ∀ {p : ℕ} {err : Err},
    s = (handleAt v e p, err) → p ≤ Entry.eof (v.entry e) → v.Seekable e p →
      ReadSafe v e p size → Reached v e t.1 ∧ Safe v e t (.seek offset seekSet) := by
  induction hseeks with
  | @here size s hpos _ =>
    rintro p err rfl hp hreach hsafe
    refine ⟨⟨p, hp, hreach, rfl⟩, fun _ _ hle => ?_⟩
    have hend : p + min size (512 - p % 512) ≤ Entry.eof (v.entry e) := by exact_mod_cast hle
    exact ((readSafe_iff hpos rfl hend).mp hsafe).1
  | @later size s t u r offset hpos _ hseek _ ih =>
    rintro p err rfl hp hreach hsafe
    obtain ⟨r', p', err', hseek', hp', hreach', hsafe'⟩ :=
      readSeek_cases hfile hreach hpos rfl hsafe hp err
    have hsame := hseek.symm.trans hseek'
    exact ih (Prod.mk.inj hsame).2 hp' hreach' hsafe'

/-- Such a read returns. The induction is on the bound. -/
theorem readLoop_safe (hfile : Entry.isFile (v.entry e)) : ∀ {rounds size p : ℕ} (err : Err),
    size ≤ rounds → p ≤ Entry.eof (v.entry e) → v.Seekable e p → ReadSafe v e p size →
      ∃ bytes s, FileHandle.readLoop v rounds size (handleAt v e p, err) = (.ret bytes, s) ∧
        Reached v e s.1 := by
  intro rounds
  induction rounds with
  | zero =>
    rintro (_ | size) p err hrounds hp hreach -
    · exact ⟨_, _, rfl, p, hp, hreach, rfl⟩
    · omega
  | succ rounds ih =>
    rintro (_ | size) p err hrounds hp hreach hsafe
    · exact ⟨_, _, rfl, p, hp, hreach, rfl⟩
    have hmod := Nat.mod_lt p (show 0 < 512 by decide)
    obtain ⟨n, hn⟩ : ∃ n, n = min (size + 1) (512 - p % 512) := ⟨_, rfl⟩
    obtain ⟨r, p', err', hseek, hp', hreach', hsafe'⟩ :=
      readSeek_cases hfile hreach (Nat.succ_pos size) hn hsafe hp err
    obtain ⟨bytes, s, hread, hleft⟩ :=
      @ih (size + 1 - n) p' err' (by omega) hp' hreach' hsafe'
    rw [readLoop_handleAt, ← hn, Call.bind_of_ret hseek, Call.bind_of_ret hread]
    exact ⟨_, s, rfl, hleft⟩

/-- A read with a stop that cannot be reached seeks it. The induction is on what is left to read. -/
theorem readSeeks_of_not_safe (hfile : Entry.isFile (v.entry e)) : ∀ {size p : ℕ} (err : Err),
    v.Seekable e p → ¬ ReadSafe v e p size →
      ∃ offset p' err', ReadSeeks v size (handleAt v e p, err) offset (handleAt v e p', err') ∧
        v.Seekable e p' ∧ ¬ Safe v e (handleAt v e p', err') (.seek offset seekSet) := by
  intro size
  induction size using Nat.strong_induction_on with
  | _ size ih =>
    intro p err hreach hnot
    have hmod := Nat.mod_lt p (show 0 < 512 by decide)
    have hsize : 0 < size := by
      by_contra h0
      refine hnot fun q hq => ?_
      obtain ⟨hlt, hle, -⟩ := hq
      omega
    obtain ⟨n, hn⟩ : ∃ n, n = min size (512 - p % 512) := ⟨_, rfl⟩
    by_cases hend : p + n ≤ Entry.eof (v.entry e)
    swap
    · -- all the stops are behind the end of the file
      refine absurd (fun q hq hle => ?_) hnot
      obtain rfl | ⟨hlt, -, -⟩ := (stop_iff hsize).mp hq <;> omega
    by_cases hfirst : v.Seekable e (p + n)
    · have hrest : ¬ ReadSafe v e (p + n) (size - n) := fun hsafe =>
        hnot ((readSafe_iff hsize hn hend).mpr ⟨hfirst, hsafe⟩)
      obtain ⟨offset, p', err', hseeks, hreach', hunsafe⟩ :=
        ih (size - n) (by omega) err hfirst hrest
      have hseek := (@seek_eq_ret_iff v e p _ _ err _ hfile hend).mpr ⟨hfirst, rfl, rfl⟩
      subst hn
      exact ⟨offset, p', err', .later hsize (Option.some_ne_none _) hseek hseeks, hreach', hunsafe⟩
    · subst hn
      refine ⟨_, p, err, .here hsize (Option.some_ne_none _), hreach, fun hsafe => hfirst ?_⟩
      have hle : ((p + min size (512 - p % 512) : ℕ) : ℤ) ≤ Entry.eof (v.entry e) := by
        exact_mod_cast hend
      exact hsafe rfl (Int.natCast_nonneg _) hle

/-! ### Any calls -/

theorem Reached.coherent {h : FileHandle} (hreached : Reached v e h) : Coherent v e h := by
  obtain ⟨p, hp, -, rfl⟩ := hreached
  exact coherent_handleAt hp

theorem exec_seek_snd (offset whence : ℤ) (s : FileHandle × Err) :
    (FileCall.exec v (.seek offset whence) s).2 = (FileHandle.seek v offset whence s).2 :=
  Call.bind_snd (fun _ _ => rfl) s

theorem exec_read_snd (size : ℕ) (s : FileHandle × Err) :
    (FileCall.exec v (.read size) s).2 = (FileHandle.read v size s).2 :=
  Call.bind_snd (fun _ _ => rfl) s

/-- A safe seek leaves the handle at a position that can be reached, if it was at one. -/
theorem Reached.seek {s : FileHandle × Err} (hreached : Reached v e s.1)
    (hfile : Entry.isFile (v.entry e)) {offset whence : ℤ}
    (hsafe : Safe v e s (.seek offset whence)) :
    Reached v e (FileHandle.seek v offset whence s).2.1 := by
  obtain ⟨h, err⟩ := s
  obtain ⟨p, hp, hreach, rfl⟩ := hreached
  by_cases hwhence : whence = seekSet
  swap
  · rw [FileHandle.seek, if_pos hwhence]
    exact ⟨p, hp, hreach, rfl⟩
  subst hwhence
  by_cases hout : offset < 0 ∨ (Entry.eof (v.entry e) : ℤ) < offset
  · rw [seek_of_out hout]
    exact ⟨p, hp, hreach, rfl⟩
  · obtain ⟨q, rfl⟩ : ∃ q : ℕ, offset = q := ⟨offset.toNat, by omega⟩
    have hq : q ≤ Entry.eof (v.entry e) := by omega
    have hseekable : v.Seekable e q := hsafe rfl (by omega) (by omega)
    rw [(seek_eq_ret_iff hfile hq).mpr ⟨hseekable, rfl, rfl⟩]
    exact ⟨q, hq, hseekable, rfl⟩

/-- And so does any safe call: a read leaves it where its last seek does. -/
theorem Reached.exec {s : FileHandle × Err} (hreached : Reached v e s.1)
    (hfile : Entry.isFile (v.entry e)) {call : FileCall} (hsafe : Safe v e s call) :
    Reached v e (call.exec v s).2.1 := by
  cases call with
  | read size =>
    rw [exec_read_snd, FileHandle.read]
    rcases Nat.eq_zero_or_pos size with rfl | hsize
    · rw [readLoop_snd_of_end (Or.inl rfl) le_rfl]
      exact hreached
    obtain ⟨h, err⟩ := s
    obtain ⟨p, hp, hreach, rfl⟩ := hreached
    obtain ⟨offset, t, hseeks, hlast⟩ :=
      @readLoop_snd v size size (handleAt v e p, err) le_rfl hsize (Option.some_ne_none _)
    obtain ⟨hreached', hsafe'⟩ := readSeeks_safe hfile hseeks rfl hp hreach hsafe
    rw [hlast]
    exact hreached'.seek hfile hsafe'
  | seek offset whence =>
    rw [exec_seek_snd]
    exact hreached.seek hfile hsafe

/-- The seeks of a safe call start from positions that have been reached, and are safe. -/
theorem Reached.seeks {s t : FileHandle × Err} (hreached : Reached v e s.1)
    (hfile : Entry.isFile (v.entry e)) {call : FileCall} (hsafe : Safe v e s call)
    {offset whence : ℤ} (hseeks : call.Seeks v s offset whence t) :
    Reached v e t.1 ∧ Safe v e t (.seek offset whence) := by
  obtain ⟨h, err⟩ := s
  obtain ⟨p, hp, hreach, rfl⟩ := id hreached
  cases hseeks with
  | seek => exact ⟨hreached, hsafe⟩
  | read hread => exact readSeeks_safe hfile hread rfl hp hreach hsafe

/-- **One call is kept if and only if it is safe,** wherever the handle has got to. -/
theorem kept_iff_safe {s : FileHandle × Err} (hreached : Reached v e s.1)
    (hfile : Entry.isFile (v.entry e)) (call : FileCall) : Kept v e s call ↔ Safe v e s call := by
  constructor
  · intro hkept
    obtain ⟨h, err⟩ := s
    obtain ⟨p, hp, hreach, rfl⟩ := hreached
    cases call with
    | seek offset whence =>
      exact (seek_unchanged_iff hfile hreach offset whence err).mp
        (hkept.unchanged _ _ _ (.seek offset whence))
    | read size =>
      by_contra hnot
      obtain ⟨offset, p', err', hseeks, hreach', hunsafe⟩ :=
        readSeeks_of_not_safe hfile err hreach hnot
      exact hunsafe ((seek_unchanged_iff hfile hreach' offset seekSet err').mp
        (hkept.unchanged _ _ _ (.read hseeks)))
  · intro hsafe
    refine ⟨fun offset whence t hseeks => ?_, fun offset whence t hseeks => ?_, ?_, ?_⟩
    · exact (hreached.seeks hfile hsafe hseeks).1.coherent
    · obtain ⟨hreached', hsafe'⟩ := hreached.seeks hfile hsafe hseeks
      obtain ⟨h', err'⟩ := t
      obtain ⟨p', -, hreach', rfl⟩ := hreached'
      exact (seek_unchanged_iff hfile hreach' offset whence err').mpr hsafe'
    · rintro size bytes t rfl hend hread
      obtain ⟨h, err⟩ := s
      obtain ⟨p, -, -, rfl⟩ := hreached
      exact (read_slice hfile hend hread).1
    · exact (hreached.exec hfile hsafe).coherent

end

/-- **Failed seeks leave a handle alone, and reads are of the block at its position,** if and only
if no position is sought that cannot be reached: for any calls on a handle that was opened on a
file, by a caller that goes on when a call has failed. The seeks of a read are those that it makes.
-/
theorem seek_failures_iff {v : Volume} {e : EntryPtr} {h : FileHandle} {err₀ err₁ : Err}
    (hopen : FileHandle.create v e err₀ = (.ret h, err₁)) (calls : List FileCall) :
    (Call.Along (FileCall.exec v) (Kept v e) (h, err₁) calls ↔
      Call.Along (FileCall.exec v) (Safe v e) (h, err₁) calls) ∧
    ∀ size s offset t, ReadSeeks v size s offset t →
      ∃ bytes rounds left, FileHandle.read v size s = (do
        let _ ← FileHandle.seek v offset seekSet
        let rest ← FileHandle.readLoop v rounds left
        pure (bytes ++ rest)) t := by
  refine ⟨?_, fun size s offset t hseeks => hseeks.readLoop_eq le_rfl⟩
  obtain ⟨hfile, hzero, rfl, rfl⟩ := create_reaches hopen
  have hreached : Reached v e (handleAt v e 0) := ⟨0, Nat.zero_le _, hzero, rfl⟩
  exact Call.along_iff (I := fun s => Reached v e s.1)
    (fun _ call hs => kept_iff_safe hs hfile call) (fun _ _ hs hsafe => hs.exec hfile hsafe) calls
    hreached

/-- In a file of one block every position can be reached. -/
theorem seek_failures_iff_small :
    ∃ h, FileHandle.create smallVolume textFile .none = (.ret h, .none) ∧
      Call.Along (FileCall.exec smallVolume) (Kept smallVolume textFile) (h, .none)
        [.read 2, .seek 9 seekSet, .seek 1 seekSet, .read 7] := by
  have hopen : FileHandle.create smallVolume textFile .none
      = (.ret (handleAt smallVolume textFile 0), .none) := by rfl
  have hseekable : ∀ q, smallVolume.Seekable textFile q := .of_seedling (by decide)
  exact ⟨_, hopen, (seek_failures_iff hopen _).1.mpr ⟨fun q _ _ => hseekable q,
    fun _ _ _ => hseekable _, fun _ _ _ => hseekable _, fun q _ _ => hseekable q, trivial⟩⟩

/-! ### A damaged file -/

/-- A volume with a sapling file of 1024 bytes, whose second block of data is not there. -/
def damagedVolume : Volume :=
  ⟨Disk.ofImage (.sparse 4096 (headerBytes 1028 0xF 65 1 8 ++
    entryBytes 1067 0x2 83 0x06 3 0 ++ [(1089, 4), (1536, 4), (1537, 200), (2559, 65)])) fun _ => 0⟩

def damagedFile : EntryPtr := ⟨.image 1024, 1⟩

theorem accepted_damaged : damagedVolume.Accepted := by decide

/-- A seek to the end of the second block throws, and is there with the data of the first. A read of
the last byte delivers the one at the end of the first block. -/
theorem not_seek_failures_damaged :
    damagedVolume.Accepted ∧ FileHandle.create damagedVolume damagedFile .none
      = (.ret (handleAt damagedVolume damagedFile 0), .none) ∧
    (∃ ex h bytes t,
      FileHandle.seek damagedVolume 1023 seekSet (handleAt damagedVolume damagedFile 0, .none)
        = (.throw ex, (h, .none)) ∧
      h.position = 1023 ∧ h.data = (handleAt damagedVolume damagedFile 0).data ∧
      FileHandle.read damagedVolume 1 (h, .none) = (.ret bytes, t) ∧
      bytes = [65] ∧ damagedVolume.slice damagedFile 511 1 = [65]) ∧
    ¬ Call.Along (FileCall.exec damagedVolume) (Kept damagedVolume damagedFile)
      (handleAt damagedVolume damagedFile 0, .none) [.seek 1023 seekSet] := by
  have hseek : FileHandle.seek damagedVolume 1023 seekSet
      (handleAt damagedVolume damagedFile 0, .none)
      = (.throw (.runtimeError "invalid block number"),
        (⟨some damagedFile, none, some (.image 1536), some (.image 2048), 1023⟩, .none)) := by
    decide +kernel
  have hread : FileHandle.read damagedVolume 1
      (⟨some damagedFile, none, some (.image 1536), some (.image 2048), 1023⟩, .none)
      = (.ret [65], (handleAt damagedVolume damagedFile 1024, .none)) := by
    decide +kernel
  refine ⟨accepted_damaged, by rfl, ⟨_, _, _, _, hseek, rfl, by decide, hread, rfl,
    by decide⟩, ?_⟩
  intro halong
  have hunchanged := halong.1.unchanged _ _ _ (.seek 1023 seekSet)
  rw [hseek] at hunchanged
  exact absurd (congrArg FileHandle.position (hunchanged trivial)) (by decide)

end Prodosfs
