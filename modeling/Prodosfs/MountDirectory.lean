import Prodosfs.General.Stores
import Prodosfs.Catalog

/-!
# The mount directory

With `-n` the program makes a directory for the volume itself, under the name of the volume, and
`S_UpdateMountDirectory` looks for one that does not exist yet: `<dir>/<name>`, and when that is
taken, `<dir>/<name>-1` up to `<dir>/<name>-9`.

Whether a name is taken is asked of `stat`, and the answer is read from `errno`, which `stat` sets
when it fails and leaves alone when it does not. So the search also depends on what `errno` was
before the first call, and on failures that have nothing to do with names.

`realloc` is taken to succeed.

## Main definitions

* `updateMountDirectory` — the search
* `FreshDirectory` — what it is meant to find

## Main results

* `freshDirectory_iff` — when it finds that
-/

namespace Prodosfs

/-- What `errno` is set to by a call that fails. -/
abbrev ErrorCode := {code : ℤ // code ≠ 0}

/-- `ENOENT` -/
def enoent : ErrorCode := ⟨2, by decide⟩

/-- What `stat` does. -/
inductive StatAnswer where
  | found
  | failed (code : ErrorCode)
  deriving DecidableEq

/-- The memory at `mount_dir`, and the state of the C library. -/
structure MountDir where
  buffer : Stores UInt8
  /-- The size of the buffer. -/
  capacity : ℕ
  errno : ℤ
  /-- The number of calls of `stat` so far. -/
  asked : ℕ

/-- What `errno` is after a call of `stat` before which it was zero. -/
def StatAnswer.errno : StatAnswer → ℤ
  | .found => 0
  | .failed code => code.1

theorem StatAnswer.errno_eq_enoent_iff {a : StatAnswer} :
    a.errno = enoent.1 ↔ a = .failed enoent := by
  cases a with
  | found => simp [StatAnswer.errno, enoent]
  | failed code => simp [StatAnswer.errno, Subtype.ext_iff]

theorem StatAnswer.errno_eq_zero_iff {a : StatAnswer} : a.errno = 0 ↔ a = .found := by
  cases a with
  | found => simp [StatAnswer.errno]
  | failed code => simp [StatAnswer.errno, code.2]

namespace MountDir

/-- The path in the buffer. Looking for its end in memory that was never stored to is undefined. -/
def text : Call Exn MountDir Str := do
  let s ← get
  match s.buffer.readUntil 0 s.capacity 0 with
  | none => Call.fault
  | some path => pure path

/-- Store bytes at an offset of the buffer, inside of it or not. -/
def store (offset : ℕ) (bytes : Str) : Call Exn MountDir Unit :=
  modify fun s => { s with buffer := s.buffer.put offset bytes }

/-- `strcat(mount_dir, s)` -/
def strcat (s : Str) : Call Exn MountDir Unit := do
  let path ← text
  store path.length (cStr s ++ [0])

/-- `realloc(mount_dir, size)`, to a larger size. -/
def realloc (size : ℕ) : Call Exn MountDir Unit :=
  modify fun s => { s with capacity := size }

variable (stat : ℕ → Str → StatAnswer)

/-- `stat(mount_dir, &st)`. The calls are numbered, so that the same path may be answered for
differently the next time. -/
def statPath : Call Exn MountDir ℤ := do
  let path ← text
  let s ← get
  match stat s.asked path with
  | .found => do
    set { s with asked := s.asked + 1 }
    pure 0
  | .failed code => do
    set { s with asked := s.asked + 1, errno := code.1 }
    pure (-1)

/-- The loop of `S_UpdateMountDirectory` over the `n` suffixes from `i` on. -/
def suffixLoop (pathLen : ℕ) : ℕ → ℕ → Call Exn MountDir Unit
  | 0, _ => pure ()
  | n + 1, i => do
    let s ← get
    if s.errno = enoent.1 then pure ()
    else
      store (pathLen + 0) (ascii "-")
      store (pathLen + 1) [48 + UInt8.ofNat i]
      store (pathLen + 2) [0]
      modify fun s => { s with errno := 0 }
      let _ ← statPath stat
      suffixLoop pathLen n (i + 1)

/-- The part of `S_UpdateMountDirectory` for a name that is taken. -/
def trySuffixes : Call Exn MountDir Bool := do
  let path ← text
  let pathLen := path.length
  suffixLoop stat pathLen 9 1
  let s ← get
  if s.errno = 0 then
    store pathLen [0]
    pure false
  else pure true

/-- `S_UpdateMountDirectory`, from the first call of `stat` on. -/
def findDirectory : Call Exn MountDir Bool := do
  let r ← statPath stat
  let s ← get
  if r = 0 ∨ s.errno ≠ enoent.1 then trySuffixes stat else pure true

/-- `S_UpdateMountDirectory` -/
def updateMountDirectory (v : Volume) : Call Exn MountDir Bool := do
  let path ← text
  let pathLen := path.length
  let volName ← v.name
  if isValidName volName = false then pure false
  else
    realloc (pathLen + 1 + volName.length + 2 + 1)
    strcat (ascii "/")
    strcat volName
    findDirectory stat

/-! ### The buffer -/

/-- The buffer starts with a path. -/
structure Starts (s : MountDir) (path : Str) : Prop where
  holds : s.buffer.Holds 0 path
  inside : s.buffer.Inside s.capacity
  nul : 0 ∉ path

/-- The buffer holds a path. -/
structure Text (s : MountDir) (path : Str) : Prop extends s.Starts path where
  terminated : s.buffer path.length = some 0

section
variable {s : MountDir} {path suffix : Str}

theorem Text.length_lt (h : s.Text path) : path.length < s.capacity := by
  refine h.inside _ ?_
  rw [h.terminated]
  exact Option.some_ne_none 0

theorem Starts.left (h : s.Starts (path ++ suffix)) : s.Starts path where
  holds := h.holds.left
  inside := h.inside
  nul hmem := h.nul (List.mem_append_left _ hmem)

/-- A path in the buffer does not depend on anything else. -/
theorem Text.of_buffer_eq {t : MountDir} (h : s.Text path) (hbuffer : t.buffer = s.buffer)
    (hcapacity : s.capacity ≤ t.capacity) : t.Text path where
  holds := hbuffer ▸ h.holds
  inside i hi := (h.inside i (hbuffer ▸ hi)).trans_le hcapacity
  nul := h.nul
  terminated := hbuffer ▸ h.terminated

/-- Another ending is put behind a path. -/
theorem Starts.put (h : s.Starts path) (hnul : 0 ∉ suffix)
    (hroom : path.length + suffix.length < s.capacity) :
    ({ s with buffer := s.buffer.put path.length (suffix ++ [0]) } : MountDir).Text
      (path ++ suffix) := by
  have hend := Stores.holds_put s.buffer path.length (suffix ++ [0])
  have hstart : (s.buffer.put path.length (suffix ++ [0])).Holds 0 path :=
    h.holds.put_of_le (Nat.zero_add path.length).le
  refine ⟨⟨hstart.append ?_, h.inside.put ?_, ?_⟩, ?_⟩
  · rw [Nat.zero_add]
    exact hend.left
  · rw [List.length_append]
    exact hroom
  · intro hmem
    exact (List.mem_append.mp hmem).elim h.nul hnul
  · have hlast := hend suffix.length (by simp)
    rw [List.length_append]
    simpa using hlast

theorem text_apply (h : s.Text path) : text s = (.ret path, s) := by
  have hholds : s.buffer.Holds 0 (path ++ [0]) := by
    refine h.holds.append fun i hi => ?_
    obtain rfl : i = 0 := by simpa using hi
    rw [Nat.zero_add, Nat.add_zero, h.terminated]
    rfl
  rw [text, Call.get_bind_apply, Stores.readUntil_of_holds hholds h.nul h.length_lt]
  rfl

/-- A larger buffer has the same path in it. -/
theorem realloc_apply (h : s.Text path) {size : ℕ} (hsize : s.capacity ≤ size) :
    ∃ t, realloc size s = (.ret (), t) ∧ t.Text path ∧ t.capacity = size ∧ t.errno = s.errno ∧
      t.asked = s.asked :=
  ⟨_, rfl, h.of_buffer_eq rfl hsize, rfl, rfl, rfl⟩

theorem strcat_apply (h : s.Text path) (hnul : 0 ∉ suffix)
    (hroom : path.length + suffix.length < s.capacity) :
    ∃ t, strcat suffix s = (.ret (), t) ∧ t.Text (path ++ suffix) ∧ t.capacity = s.capacity ∧
      t.errno = s.errno ∧ t.asked = s.asked := by
  refine ⟨_, ?_, h.toStarts.put hnul hroom, rfl, rfl, rfl⟩
  rw [strcat, Call.bind_of_ret (text_apply h), cStr_of_not_mem hnul]
  rfl

end

/-- A call of `stat`. -/
theorem statPath_apply {s : MountDir} {path : Str} (h : s.Text path) : statPath stat s
    = match stat s.asked path with
      | .found => (.ret 0, { s with asked := s.asked + 1 })
      | .failed code => (.ret (-1), { s with asked := s.asked + 1, errno := code.1 }) := by
  rw [statPath, Call.bind_of_ret (text_apply h), Call.get_bind_apply]
  cases stat s.asked path with
  | found => rfl
  | failed code => rfl

/-- A call of `stat` with an `errno` that says what has come of it. -/
theorem statPath_of_zero {s : MountDir} {path : Str} (h : s.Text path) (hzero : s.errno = 0) :
    ∃ r, statPath stat s
      = (.ret r, { s with errno := (stat s.asked path).errno, asked := s.asked + 1 }) := by
  rw [statPath_apply stat h]
  cases stat s.asked path with
  | found =>
    cases s
    cases hzero
    exact ⟨0, rfl⟩
  | failed code => exact ⟨-1, rfl⟩

/-! ### The loop -/

/-- The endings that are tried one after the other. -/
def ending (i : ℕ) : Str := if i = 0 then [] else [45, 48 + UInt8.ofNat i]

theorem ending_of_pos {i : ℕ} (hi : 0 < i) : ending i = [45, 48 + UInt8.ofNat i] :=
  if_neg (by omega)

theorem length_ending {i : ℕ} (hi : 0 < i) : (ending i).length = 2 := by
  rw [ending_of_pos hi]
  rfl

theorem not_mem_ending : ∀ i < 10, (0 : UInt8) ∉ ending i := by decide

/-- The answer for the candidate with number `i`, which is the call with number `i`. -/
def answer (base : Str) (i : ℕ) : StatAnswer := stat i (base ++ ending i)

/-- A candidate that does not exist. -/
def Free (base : Str) (i : ℕ) : Prop := answer stat base i = .failed enoent

/-- One round of the loop stores the next ending and asks for it. -/
theorem suffixLoop_succ {s : MountDir} {base : Str} (h : s.Starts base)
    (hroom : base.length + 2 < s.capacity) (herrno : s.errno ≠ enoent.1) {n i : ℕ} (hpos : 0 < i)
    (hi : i < 10) (hasked : s.asked = i) :
    ∃ t : MountDir, suffixLoop stat base.length (n + 1) i s
        = suffixLoop stat base.length n (i + 1) t ∧ t.Text (base ++ ending i) ∧
      t.capacity = s.capacity ∧ t.errno = (answer stat base i).errno ∧ t.asked = i + 1 := by
  have hstores : ((s.buffer.put (base.length + 0) (ascii "-")).put (base.length + 1)
      [48 + UInt8.ofNat i]).put (base.length + 2) [0]
        = s.buffer.put base.length (ending i ++ [0]) := by
    have hfirst := Stores.put_put s.buffer base.length (ascii "-") [48 + UInt8.ofNat i]
    have hsecond := Stores.put_put s.buffer base.length [45, 48 + UInt8.ofNat i] [0]
    rw [ending_of_pos hpos, ← hsecond]
    exact congrArg (fun b => Stores.put b (base.length + 2) [0]) hfirst
  have htext := h.put (not_mem_ending i hi) (by rw [length_ending hpos]; exact hroom)
  have htext' : ({ s with
      buffer := s.buffer.put base.length (ending i ++ [0])
      errno := 0 } : MountDir).Text (base ++ ending i) := htext.of_buffer_eq rfl le_rfl
  obtain ⟨r, hstat⟩ := statPath_of_zero stat htext' rfl
  refine ⟨{ s with
    buffer := s.buffer.put base.length (ending i ++ [0])
    errno := (stat s.asked (base ++ ending i)).errno
    asked := s.asked + 1 }, ?_, htext.of_buffer_eq rfl le_rfl, rfl, ?_, congrArg (· + 1) hasked⟩
  · rw [suffixLoop, Call.get_bind_apply, Call.ite_apply, if_neg herrno]
    show (statPath stat >>= fun _ => suffixLoop stat base.length n (i + 1)) { s with
      buffer := ((s.buffer.put (base.length + 0) (ascii "-")).put (base.length + 1)
        [48 + UInt8.ofNat i]).put (base.length + 2) [0]
      errno := 0 } = _
    rw [hstores]
    exact Call.bind_of_ret hstat
  · rw [answer, ← hasked]

/-- What the loop leaves after the candidates from `i` to `j`: it has stopped at the first one that
is free, or it has gone through all of them. -/
structure Searched (base : Str) (capacity i j : ℕ) (t : MountDir) : Prop where
  starts : t.Starts base
  capacity : t.capacity = capacity
  result : (∃ k, i ≤ k ∧ k ≤ j ∧ Free stat base k ∧ (∀ m, i ≤ m → m < k → ¬ Free stat base m) ∧
      t.errno = enoent.1 ∧ t.Text (base ++ ending k)) ∨
    ((∀ k, i ≤ k → k ≤ j → ¬ Free stat base k) ∧ t.errno = (answer stat base j).errno)

/-- **The loop searches.** The induction is on the number of rounds. -/
theorem suffixLoop_searched {base : Str} : ∀ (n : ℕ) {i : ℕ} {s : MountDir}, s.Starts base →
    base.length + 2 < s.capacity → s.errno ≠ enoent.1 → 0 < i → i + n < 10 → s.asked = i →
    ∃ t, suffixLoop stat base.length (n + 1) i s = (.ret (), t) ∧
      Searched stat base s.capacity i (i + n) t := by
  intro n
  induction n with
  | zero =>
    intro i s h hroom herrno hpos hi hasked
    obtain ⟨t, hround, htext, hcapacity, herrno', -⟩ :=
      suffixLoop_succ stat (n := 0) h hroom herrno hpos hi hasked
    refine ⟨t, hround, ⟨htext.left, hcapacity, ?_⟩⟩
    by_cases hfree : Free stat base i
    · exact Or.inl ⟨i, le_rfl, le_rfl, hfree, fun m hm hlt => by omega,
        herrno'.trans (StatAnswer.errno_eq_enoent_iff.mpr hfree), htext⟩
    · refine Or.inr ⟨fun k hk hk' => ?_, herrno'⟩
      obtain rfl : k = i := by omega
      exact hfree
  | succ n ih =>
    intro i s h hroom herrno hpos hi hasked
    obtain ⟨t, hround, htext, hcapacity, herrno', hasked'⟩ :=
      suffixLoop_succ stat (n := n + 1) h hroom herrno hpos (by omega) hasked
    by_cases hfree : Free stat base i
    · have hstop : t.errno = enoent.1 := herrno'.trans (StatAnswer.errno_eq_enoent_iff.mpr hfree)
      refine ⟨t, ?_, ⟨htext.left, hcapacity, Or.inl ⟨i, le_rfl, by omega, hfree,
        fun m hm hlt => by omega, hstop, htext⟩⟩⟩
      rw [hround, suffixLoop, Call.get_bind_apply, Call.ite_apply, if_pos hstop]
      rfl
    · have hgo : t.errno ≠ enoent.1 := fun heq =>
        hfree (StatAnswer.errno_eq_enoent_iff.mp (herrno'.symm.trans heq))
      obtain ⟨u, hrest, hu⟩ := ih htext.left (by omega) hgo (by omega) (by omega) hasked'
      rw [show i + 1 + n = i + (n + 1) by omega] at hu
      refine ⟨u, hround.trans hrest, ⟨hu.starts, hu.capacity.trans hcapacity, ?_⟩⟩
      rcases hu.result with ⟨k, hk, hk', hkfree, hbefore, hend⟩ | ⟨hnone, herrno⟩
      · refine Or.inl ⟨k, by omega, hk', hkfree, fun m hm hlt => ?_, hend⟩
        rcases Nat.eq_or_lt_of_le hm with rfl | hm
        · exact hfree
        · exact hbefore m hm hlt
      · refine Or.inr ⟨fun k hk hk' => ?_, herrno⟩
        rcases Nat.eq_or_lt_of_le hk with rfl | hk
        · exact hfree
        · exact hnone k hk hk'

/-! ### The search -/

/-- `mount_dir` with the path of a directory in it. -/
def start (dir : Str) (errno : ℤ) : MountDir where
  buffer := Stores.empty.put 0 (dir ++ [0])
  capacity := dir.length + 1
  errno := errno
  asked := 0

theorem text_start {dir : Str} (hnul : 0 ∉ dir) (errno : ℤ) : (start dir errno).Text dir := by
  have hholds := Stores.holds_put (Stores.empty : Stores UInt8) 0 (dir ++ [0])
  refine ⟨⟨hholds.left, (Stores.inside_empty _).put ?_, hnul⟩, ?_⟩
  · rw [List.length_append, Nat.zero_add]
    exact le_rfl
  · have hlast := hholds dir.length (by simp)
    rw [start]
    simpa using hlast

/-- The first candidate. -/
def base (v : Volume) (dir : Str) : Str := dir ++ ascii "/" ++ Entry.fileName v.header

/-- What the search is meant to do: it returns true only with the first candidate that `stat` says
does not exist, and false when there is none, and it writes only inside the buffer. -/
structure FreshDirectory (v : Volume) (dir : Str) (errno : ℤ) : Prop where
  inside : (updateMountDirectory stat v (start dir errno)).2.buffer.Inside
    (dir.length + 1 + (Entry.fileName v.header).length + 2 + 1)
  fresh : (updateMountDirectory stat v (start dir errno)).1 = .ret true →
    ∃ k < 10, Free stat (base v dir) k ∧ (∀ j < k, ¬ Free stat (base v dir) j) ∧
      (updateMountDirectory stat v (start dir errno)).2.Text (base v dir ++ ending k)
  taken : (∀ k < 10, ¬ Free stat (base v dir) k) →
    (updateMountDirectory stat v (start dir errno)).1 = .ret false

/-- What comes of the candidates from `i` on: the first one that does not exist, or none, and then
the last call of `stat` decides. -/
def Found (base : Str) (i : ℕ) (r : Bool) (t : MountDir) : Prop :=
  (∃ k < 10, i ≤ k ∧ Free stat base k ∧ (∀ j < k, i ≤ j → ¬ Free stat base j) ∧ r = true ∧
      t.Text (base ++ ending k)) ∨
    (∀ k < 10, i ≤ k → ¬ Free stat base k) ∧ (r = false ↔ answer stat base 9 = .found)

/-- A candidate that is not free may be put in front. -/
theorem Found.of_not_free {base : Str} {i : ℕ} {r : Bool} {t : MountDir}
    (h : Found stat base (i + 1) r t) (hbusy : ¬ Free stat base i) : Found stat base i r t := by
  rcases h with ⟨k, hk, hi, hfree, hbefore, hr, htext⟩ | ⟨hnone, hr⟩
  · refine Or.inl ⟨k, hk, Nat.le_of_succ_le hi, hfree, fun j hj hij => ?_, hr, htext⟩
    rcases Nat.eq_or_lt_of_le hij with rfl | hij
    · exact hbusy
    · exact hbefore j hj hij
  · refine Or.inr ⟨fun k hk hik => ?_, hr⟩
    rcases Nat.eq_or_lt_of_le hik with rfl | hik
    · exact hbusy
    · exact hnone k hk hik

/-- What comes of trying the suffixes. -/
theorem trySuffixes_spec {s : MountDir} {base : Str} (h : s.Text base)
    (hroom : base.length + 2 < s.capacity) (herrno : s.errno ≠ enoent.1) (hasked : s.asked = 1) :
    ∃ r t, trySuffixes stat s = (.ret r, t) ∧ t.buffer.Inside s.capacity ∧
      Found stat base 1 r t := by
  obtain ⟨t, hloop, ht⟩ :=
    suffixLoop_searched stat 8 h.toStarts hroom herrno (by decide) (by decide) hasked
  have hinside : t.buffer.Inside s.capacity := ht.capacity ▸ ht.starts.inside
  have hrun : trySuffixes stat s = (if t.errno = 0 then do
      store base.length [0]
      pure false
    else pure true : Call Exn MountDir Bool) t := by
    rw [trySuffixes, Call.bind_of_ret (text_apply h), Call.bind_of_ret hloop]
    rfl
  rw [hrun, Call.ite_apply]
  rcases ht.result with ⟨k, hk, hk', hfree, hbefore, hend, htext⟩ | ⟨hnone, hlast⟩
  · have hne : t.errno ≠ 0 := hend ▸ enoent.2
    rw [if_neg hne]
    exact ⟨true, t, rfl, hinside, Or.inl ⟨k, by omega, hk, hfree,
      fun j hj hpos => hbefore j hpos hj, rfl, htext⟩⟩
  · have hnone' : ∀ k < 10, 1 ≤ k → ¬ Free stat base k := fun k hk hpos => hnone k hpos (by omega)
    have hfound : t.errno = 0 ↔ answer stat base 9 = .found :=
      hlast ▸ StatAnswer.errno_eq_zero_iff
    by_cases hzero : t.errno = 0
    · rw [if_pos hzero]
      refine ⟨false, _, rfl, hinside.put ?_, Or.inr ⟨hnone', iff_of_true rfl (hfound.mp hzero)⟩⟩
      rw [List.length_singleton]
      omega
    · rw [if_neg hzero]
      exact ⟨true, t, rfl, hinside, Or.inr ⟨hnone',
        iff_of_false Bool.noConfusion fun h => hzero (hfound.mpr h)⟩⟩

/-- An `errno` that says `ENOENT` already ends the loop before its first round. -/
theorem trySuffixes_of_enoent {s : MountDir} {base : Str} (h : s.Text base)
    (herrno : s.errno = enoent.1) : trySuffixes stat s = (.ret true, s) := by
  have hloop : suffixLoop stat base.length 9 1 s = (.ret (), s) := by
    rw [suffixLoop, Call.get_bind_apply, Call.ite_apply, if_pos herrno]
    rfl
  have hne : s.errno ≠ 0 := herrno ▸ enoent.2
  rw [trySuffixes, Call.bind_of_ret (text_apply h), Call.bind_of_ret hloop, Call.get_bind_apply,
    Call.ite_apply, if_neg hne]
  rfl

/-- Up to the first call of `stat`, the first candidate is put into the buffer. -/
theorem updateMountDirectory_eq {v : Volume} (hv : v.Accepted)
    (hvalid : isValidName (Entry.fileName v.header)) {dir : Str} (hnul : 0 ∉ dir) (errno : ℤ) :
    ∃ s : MountDir, updateMountDirectory stat v (start dir errno) = findDirectory stat s ∧
      s.Text (base v dir) ∧ s.capacity = (base v dir).length + 3 ∧ s.errno = errno ∧
      s.asked = 0 := by
  have hslash : (0 : UInt8) ∉ ascii "/" := by decide
  have hname : (0 : UInt8) ∉ Entry.fileName v.header :=
    not_mem_of_isValidName hvalid (by decide)
  have hlength : (base v dir).length = dir.length + 1 + (Entry.fileName v.header).length := by
    rw [base, List.length_append, List.length_append]
    rfl
  have hnot : ¬ isValidName (Entry.fileName v.header) = false := by simp [hvalid]
  obtain ⟨t₀, hrealloc, htext₀, hcapacity₀, herrno₀, hasked₀⟩ :=
    realloc_apply (text_start hnul errno) (show (start dir errno).capacity
      ≤ dir.length + 1 + (Entry.fileName v.header).length + 2 + 1 by
        show dir.length + 1 ≤ _
        omega)
  obtain ⟨t₁, hstrcat₁, htext₁, hcapacity₁, herrno₁, hasked₁⟩ :=
    strcat_apply htext₀ hslash (show dir.length + 1 < t₀.capacity by omega)
  obtain ⟨t₂, hstrcat₂, htext₂, hcapacity₂, herrno₂, hasked₂⟩ :=
    strcat_apply htext₁ hname (show (dir ++ ascii "/").length + _ < t₁.capacity by
      rw [← List.length_append, ← base]
      omega)
  refine ⟨t₂, ?_, htext₂, by omega, herrno₂.trans (herrno₁.trans herrno₀),
    hasked₂.trans (hasked₁.trans hasked₀)⟩
  rw [updateMountDirectory, Call.bind_of_ret (text_apply (text_start hnul errno)),
    Call.bind_of_ret (name_of_accepted hv _), Call.ite_apply, if_neg hnot,
    Call.bind_of_ret hrealloc, Call.bind_of_ret hstrcat₁, Call.bind_of_ret hstrcat₂]

/-- What comes of the search. Where the first call of `stat` finds something, `errno` is still what
it was at the start, and `ENOENT` there is taken for an answer. -/
theorem findDirectory_spec {s : MountDir} {base : Str} (h : s.Text base)
    (hroom : base.length + 2 < s.capacity) (hasked : s.asked = 0) :
    ∃ r t, findDirectory stat s = (.ret r, t) ∧ t.buffer.Inside s.capacity ∧
      ((answer stat base 0 = .found ∧ s.errno = enoent.1 ∧ r = true ∧ t.Text base) ∨
        ((answer stat base 0 = .found → s.errno ≠ enoent.1) ∧ Found stat base 0 r t)) := by
  have hzero : base ++ ending 0 = base := List.append_nil base
  have hanswer : answer stat base 0 = stat s.asked base := by rw [answer, hzero, hasked]
  -- From the second call on, the first candidate is one that exists.
  have hsuffixes : ∀ t : MountDir, t.Text base → t.capacity = s.capacity → t.errno ≠ enoent.1 →
      t.asked = 1 → ¬ Free stat base 0 → ∃ r u, trySuffixes stat t = (.ret r, u) ∧
        u.buffer.Inside s.capacity ∧ Found stat base 0 r u := by
    intro t ht hcapacity herrno hcount hfirst
    obtain ⟨r, u, hrun, hinside, hresult⟩ :=
      trySuffixes_spec stat ht (hcapacity ▸ hroom) herrno hcount
    exact ⟨r, u, hrun, hcapacity ▸ hinside, hresult.of_not_free stat hfirst⟩
  have hstat := statPath_apply stat h
  rw [← hanswer] at hstat
  cases hfound : answer stat base 0 with
  | found =>
    have hnot : ¬ Free stat base 0 := by simp [Free, hfound]
    rw [hfound] at hstat
    have hrun : findDirectory stat s = trySuffixes stat { s with asked := s.asked + 1 } := by
      rw [findDirectory, Call.bind_of_ret hstat]
      rfl
    rw [hrun]
    by_cases herrno : s.errno = enoent.1
    · have htext : ({ s with asked := s.asked + 1 } : MountDir).Text base :=
        h.of_buffer_eq rfl le_rfl
      exact ⟨true, _, trySuffixes_of_enoent stat htext herrno, h.inside,
        Or.inl ⟨rfl, herrno, rfl, htext⟩⟩
    · obtain ⟨r, u, hsearch, hinside, hresult⟩ := hsuffixes { s with asked := s.asked + 1 }
        (h.of_buffer_eq rfl le_rfl) rfl herrno (congrArg (· + 1) hasked) hnot
      exact ⟨r, u, hsearch, hinside, Or.inr ⟨fun _ => herrno, hresult⟩⟩
  | failed code =>
    have hnot : StatAnswer.failed code = .found → s.errno ≠ enoent.1 := fun h => by cases h
    rw [hfound] at hstat
    by_cases hcode : code = enoent
    · have hfree : Free stat base 0 := hfound.trans (congrArg _ hcode)
      have hrun : findDirectory stat s
          = (.ret true, { s with asked := s.asked + 1, errno := code.1 }) := by
        rw [findDirectory, Call.bind_of_ret hstat, Call.get_bind_apply, Call.ite_apply,
          if_neg (by simp [hcode])]
        rfl
      refine ⟨true, _, hrun, h.inside, Or.inr ⟨hnot, Or.inl ⟨0, by decide, le_rfl, hfree,
        fun j hj => absurd hj (Nat.not_lt_zero j), rfl, ?_⟩⟩⟩
      rw [hzero]
      exact h.of_buffer_eq rfl le_rfl
    · have hne : code.1 ≠ enoent.1 := fun heq => hcode (Subtype.ext heq)
      have hbusy : ¬ Free stat base 0 := fun hfree =>
        hcode (StatAnswer.failed.inj (hfound.symm.trans hfree))
      have hrun : findDirectory stat s
          = trySuffixes stat { s with asked := s.asked + 1, errno := code.1 } := by
        rw [findDirectory, Call.bind_of_ret hstat, Call.get_bind_apply, Call.ite_apply,
          if_pos (Or.inr hne)]
      obtain ⟨r, u, hsearch, hinside, hresult⟩ :=
        hsuffixes { s with asked := s.asked + 1, errno := code.1 } (h.of_buffer_eq rfl le_rfl) rfl
          hne (congrArg (· + 1) hasked) hbusy
      exact ⟨r, u, hrun.trans hsearch, hinside, Or.inr ⟨hnot, hresult⟩⟩

/-- A path in a buffer is one path. -/
theorem Text.unique {s : MountDir} {path path' : Str} (h : s.Text path) (h' : s.Text path') :
    path = path' := by
  have htext := text_apply h
  rw [text_apply h'] at htext
  exact (Outcome.ret.inj (Prod.mk.inj htext).1).symm

/-- **The search finds the first directory that does not exist, if and only if** `errno` is not
`ENOENT` at the start when the first candidate exists, and one of the candidates does not exist or
`stat` finds the last one. -/
theorem freshDirectory_iff {v : Volume} (hv : v.Accepted)
    (hvalid : isValidName (Entry.fileName v.header)) {dir : Str} (hnul : 0 ∉ dir) (errno : ℤ) :
    FreshDirectory stat v dir errno ↔
      (answer stat (base v dir) 0 = .found → errno ≠ enoent.1) ∧
        ((∃ k < 10, Free stat (base v dir) k) ∨ answer stat (base v dir) 9 = .found) := by
  obtain ⟨s, hupdate, htext, hcapacity, herrno, hasked⟩ :=
    updateMountDirectory_eq stat hv hvalid hnul errno
  obtain ⟨r, t, hfind, hinside, hresult⟩ :=
    findDirectory_spec stat htext (by omega) hasked
  have hrun := hupdate.trans hfind
  have hlength : s.capacity = dir.length + 1 + (Entry.fileName v.header).length + 2 + 1 := by
    rw [hcapacity, base, List.length_append, List.length_append]
    rfl
  have hfalse : ∀ {b : Bool}, (Outcome.ret b : Outcome Exn Bool) = .ret false ↔ b = false :=
    ⟨Outcome.ret.inj, congrArg _⟩
  rw [hlength] at hinside
  rw [herrno] at hresult
  constructor
  · intro hfresh
    have hf := hfresh.fresh
    have ht := hfresh.taken
    rw [hrun] at hf ht
    rcases hresult with ⟨hfound, -, rfl, hbase⟩ | ⟨hfirst, hresult⟩
    · obtain ⟨k, hk, hfree, -, hend⟩ := hf rfl
      have hsame : base v dir ++ [] = base v dir ++ ending k :=
        (List.append_nil _).trans (hbase.unique hend)
      have hzero : k = 0 := by
        by_contra hne
        have hlen := congrArg List.length (List.append_cancel_left hsame)
        rw [length_ending (Nat.pos_of_ne_zero hne)] at hlen
        cases hlen
      rw [hzero, Free, hfound] at hfree
      cases hfree
    · refine ⟨hfirst, ?_⟩
      rcases hresult with ⟨k, hk, -, hfree, -⟩ | ⟨hnone, hr⟩
      · exact Or.inl ⟨k, hk, hfree⟩
      · exact Or.inr (hr.mp (hfalse.mp (ht fun k hk => hnone k hk (Nat.zero_le k))))
  · rintro ⟨hfirst, hcandidates⟩
    rcases hresult with ⟨hfound, hstart, -⟩ | ⟨-, hresult⟩
    · exact absurd hstart (hfirst hfound)
    refine ⟨?_, ?_, ?_⟩
    · rw [hrun]
      exact hinside
    · rw [hrun]
      intro htrue
      rcases hresult with ⟨k, hk, -, hfree, hbefore, -, hend⟩ | ⟨hnone, hr⟩
      · exact ⟨k, hk, hfree, fun j hj => hbefore j hj (Nat.zero_le j), hend⟩
      · rcases hcandidates with ⟨k, hk, hfree⟩ | hlast
        · exact absurd hfree (hnone k hk (Nat.zero_le k))
        · rw [hr.mpr hlast] at htrue
          cases htrue
    · rw [hrun]
      intro hnone
      rcases hresult with ⟨k, hk, -, hfree, -⟩ | ⟨-, hr⟩
      · exact absurd hfree (hnone k hk)
      · rcases hcandidates with ⟨k, hk, hfree⟩ | hlast
        · exact absurd hfree (hnone k hk)
        · exact congrArg _ (hr.mpr hlast)

/-- The small volume is mounted in `/m/A`, where nothing exists. -/
theorem freshDirectory_iff_small :
    FreshDirectory (fun _ _ => .failed enoent) smallVolume (ascii "/m") 0 :=
  (freshDirectory_iff (fun _ _ => .failed enoent) accepted_small (by decide) (by decide) 0).mpr
    ⟨fun h => (StatAnswer.noConfusion h : _), Or.inl ⟨0, by decide, rfl⟩⟩

/-- Every candidate exists, and an earlier call has left `ENOENT` behind; and every candidate is
one that may not be looked at (`EACCES`). Both times the search returns true. -/
theorem not_freshDirectory_small :
    ¬ FreshDirectory (fun _ _ => .found) smallVolume (ascii "/m") enoent.1 ∧
      ¬ FreshDirectory (fun _ _ => .failed ⟨13, by decide⟩) smallVolume (ascii "/m") 0 := by
  constructor
  · intro hfresh
    have hfalse := hfresh.taken fun k _ hfree => by cases hfree
    have htrue : (updateMountDirectory (fun _ _ => .found) smallVolume
        (start (ascii "/m") enoent.1)).1 = .ret true := by decide +kernel
    rw [htrue] at hfalse
    cases hfalse
  · intro hfresh
    have hfalse := hfresh.taken fun k _ hfree =>
      absurd (congrArg Subtype.val (StatAnswer.failed.inj hfree)) (by decide)
    have htrue : (updateMountDirectory (fun _ _ => .failed ⟨13, by decide⟩) smallVolume
        (start (ascii "/m") 0)).1 = .ret true := by decide +kernel
    rw [htrue] at hfalse
    cases hfalse

end MountDir

end Prodosfs
