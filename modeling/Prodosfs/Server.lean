import Prodosfs.Mount
import Prodosfs.General.Refinement

/-!
# The server

What there is while the file system is mounted, and what happens to it: the objects that the
`fi->fh` of open files lead to, the error of every thread, and the calls that have not returned.
The main loop runs callbacks in several threads.

A callback is one action, but for `prodosfs_read` of a file: its calls of `Seek` and `Read` are
two, and other threads may come in between. For the other callbacks it makes no difference what
other threads do meanwhile, as long as they leave the same `fi->fh` alone: the image is not written
to, and what is written is an object that the callback has been given, or the error of its thread.
Two `prodosfs_readdir` at once on one open directory would get in each other's way as reads do;
they are one action each here, as only one at a time is let through for an open directory.

The kernel's open files have numbers here. There is one `fuse_file_info` for each, and so one
`fi->fh`, and `new` never returns an object that is still there.

## Main definitions

* `Server` — the state
* `Action`, `Reply` — what the kernel asks for, and what it gets
* `Server.exec` — one action of one thread

## Main results

* `Server.exec_read_eq` — the two actions of a read in a row are `prodosfs_read`
-/

namespace Prodosfs

/-- What a `fi->fh` leads to. -/
inductive Object where
  | opened (fh : Fh)
  | directory (dh : DirectoryHandle)

/-- A call of `prodosfs_read` that has come to its call of `Read`. -/
structure Reading where
  fi : ℕ
  bufsiz : ℕ

/-- The program, while the file system is mounted. -/
structure Server where
  /-- By the number of the open file. -/
  objects : ℕ → Option Object
  /-- By the number of the thread. -/
  errors : ℕ → Err
  /-- By the number of the thread. -/
  reading : ℕ → Option Reading

/-- What the kernel asks a thread for. The number is that of an open file. -/
inductive Action where
  | getattr (path : Str) (st : Stat)
  | opens (path : Str) (fi : ℕ)
  /-- `prodosfs_read`, up to its call of `Read`. -/
  | read (path : Str) (fi bufsiz : ℕ) (off : ℤ)
  /-- `prodosfs_read`, from its call of `Read` on. -/
  | readOn
  | release (path : Str) (fi : ℕ)
  | getxattr (path name : Str) (size : ℕ)
  | listxattr (path : Str) (size : ℕ)
  | opendir (path : Str) (fi : ℕ)
  | readdir (fi : ℕ) (filler : List Str → Str → Bool)
  | releasedir (fi : ℕ)

/-- What the kernel gets: a result, and what has been filled in. -/
inductive Reply where
  /-- The call has not returned. -/
  | begun
  | result (r : ℤ)
  | stat (r : ℤ) (st : Stat)
  | bytes (r : ℤ) (buf : Str)
  | names (r : ℤ) (names : List Str)
  deriving DecidableEq

namespace Server

/-- There is nothing yet. -/
def start (errors : ℕ → Err) : Server := ⟨fun _ => none, errors, fun _ => none⟩

section
variable {α : Type} (thread fi : ℕ)

/-- The thread has been left with an error. -/
def erred (s : Server) (err : Err) : Server :=
  { s with errors := Function.update s.errors thread err }

/-- An object has been replaced, or is there no longer. -/
def stored (s : Server) (object : Option Object) : Server :=
  { s with objects := Function.update s.objects fi object }

/-- A thread is between `Seek` and `Read`, or no longer. -/
def halfway (s : Server) (reading : Option Reading) : Server :=
  { s with reading := Function.update s.reading thread reading }

/-- A part of a callback that has to do with the error of its thread only. -/
def onThread (call : Call Exn Err α) : Call Exn Server α :=
  Call.onPart (fun s => s.errors thread) (erred thread) call

/-- A part of a callback that is given what `open` has left in `fi->fh`. -/
def onOpened (call : Call Exn (Fh × Err) α) : Call Exn Server α := fun s =>
  match s.objects fi with
  | some (.opened fh) =>
    Call.onPart (fun s => (fh, s.errors thread))
      (fun s t => (s.stored fi (some (.opened t.1))).erred thread t.2) call s
  | _ => (.fault, s)

/-- A part of a callback that is given what `opendir` has left in `fi->fh`. -/
def onDirectory (call : Call Exn (DirectoryHandle × Err) α) : Call Exn Server α := fun s =>
  match s.objects fi with
  | some (.directory dh) =>
    Call.onPart (fun s => (dh, s.errors thread))
      (fun s t => (s.stored fi (some (.directory t.1))).erred thread t.2) call s
  | _ => (.fault, s)

end

variable (m : Mount) (fuel : ℕ)

/-- One action of one thread. -/
def exec : ℕ × Action → Call Exn Server Reply
  | (thread, .getattr path st) => do
    let (r, st) ← onThread thread (prodosfsGetattr m fuel path st)
    pure (.stat r st)
  | (thread, .opens path fi) => do
    let (r, fh) ← onThread thread (prodosfsOpen m fuel path)
    match fh with
    | none => pure (.result r)
    | some fh => do
      modify fun s => s.stored fi (some (.opened fh))
      pure (.result r)
  | (thread, .read path fi bufsiz off) =>
    if virtualFileMode ≠ .none ∧ virtualFileId path ≠ .none then do
      let (r, buf) ← onOpened thread fi (prodosfsRead m path bufsiz off)
      pure (.bytes r buf)
    else do
      let pos ← onOpened thread fi (onFile (FileHandle.seek m.volume off seekSet))
      if pos < 0 then do
        let s ← get
        pure (.bytes (-toError (s.errors thread)) [])
      else do
        modify fun s => s.halfway thread (some ⟨fi, bufsiz⟩)
        pure .begun
  | (thread, .readOn) => do
    let s ← get
    match s.reading thread with
    | none => Call.fault
    | some ⟨fi, bufsiz⟩ => do
      modify fun s => s.halfway thread none
      let (r, buf) ← onOpened thread fi (onFile (readBuffer m.volume bufsiz))
      pure (.bytes r buf)
  | (thread, .release path fi) => do
    let r ← onOpened thread fi (prodosfsClose path)
    modify fun s => s.stored fi none
    pure (.result r)
  | (thread, .getxattr path name size) => do
    let (r, buf) ← onThread thread (prodosfsGetxattr m fuel path name size)
    pure (.bytes r buf)
  | (thread, .listxattr path size) => do
    let (r, buf) ← onThread thread (prodosfsListxattr m fuel path size)
    pure (.bytes r buf)
  | (thread, .opendir path fi) => do
    let (r, dh) ← onThread thread (prodosfsOpendir m fuel path)
    match dh with
    | none => pure (.result r)
    | some dh => do
      modify fun s => s.stored fi (some (.directory dh))
      pure (.result r)
  | (thread, .readdir fi filler) => do
    let (r, names) ← onDirectory thread fi (prodosfsReaddir m fuel filler)
    pure (.names r names)
  | (thread, .releasedir fi) => do
    let r ← onDirectory thread fi prodosfsClosedir
    modify fun s => s.stored fi none
    pure (.result r)

section
variable {α : Type} {thread fi : ℕ} {s : Server}

@[simp] theorem erred_objects (err : Err) : (s.erred thread err).objects = s.objects := rfl

@[simp] theorem erred_reading (err : Err) : (s.erred thread err).reading = s.reading := rfl

@[simp] theorem erred_errors (err : Err) :
    (s.erred thread err).errors = Function.update s.errors thread err := rfl

@[simp] theorem stored_objects (object : Option Object) :
    (s.stored fi object).objects = Function.update s.objects fi object := rfl

@[simp] theorem stored_reading (object : Option Object) :
    (s.stored fi object).reading = s.reading := rfl

@[simp] theorem stored_errors (object : Option Object) :
    (s.stored fi object).errors = s.errors := rfl

@[simp] theorem halfway_objects (reading : Option Reading) :
    (s.halfway thread reading).objects = s.objects := rfl

@[simp] theorem halfway_errors (reading : Option Reading) :
    (s.halfway thread reading).errors = s.errors := rfl

@[simp] theorem halfway_reading (reading : Option Reading) :
    (s.halfway thread reading).reading = Function.update s.reading thread reading := rfl

/-- Of what is stored twice, the second counts. -/
theorem stored_erred_stored (object object' : Option Object) (err : Err) :
    ((s.stored fi object).erred thread err).stored fi object'
      = (s.stored fi object').erred thread err := by
  simp only [stored, erred, Function.update_idem]

theorem onThread_of_eq {call : Call Exn Err α} {o : Outcome Exn α} {err : Err}
    (h : call (s.errors thread) = (o, err)) : onThread thread call s = (o, s.erred thread err) :=
  Call.onPart_of_eq h

theorem onOpened_of_eq {call : Call Exn (Fh × Err) α} {o : Outcome Exn α} {fh fh' : Fh} {err : Err}
    (hobject : s.objects fi = some (.opened fh))
    (h : call (fh, s.errors thread) = (o, (fh', err))) :
    onOpened thread fi call s = (o, (s.stored fi (some (.opened fh'))).erred thread err) := by
  rw [onOpened, hobject]
  simp only [Call.onPart, h]

theorem onOpened_onFile {call : Call Exn (FileHandle × Err) α} {o : Outcome Exn α}
    {h h' : FileHandle} {err : Err} (hobject : s.objects fi = some (.opened (.file h)))
    (hcall : call (h, s.errors thread) = (o, (h', err))) :
    onOpened thread fi (onFile call) s
      = (o, (s.stored fi (some (.opened (.file h')))).erred thread err) := by
  refine onOpened_of_eq hobject ?_
  rw [onFile]
  simp only [hcall]

theorem onDirectory_of_eq {call : Call Exn (DirectoryHandle × Err) α} {o : Outcome Exn α}
    {dh dh' : DirectoryHandle} {err : Err} (hobject : s.objects fi = some (.directory dh))
    (h : call (dh, s.errors thread) = (o, (dh', err))) :
    onDirectory thread fi call s
      = (o, (s.stored fi (some (.directory dh'))).erred thread err) := by
  rw [onDirectory, hobject]
  simp only [Call.onPart, h]

/-! ### The two actions of a read -/

variable {m : Mount} (fuel bufsiz : ℕ) {path : Str} {off : ℤ} {h : FileHandle}

/-- A `Seek` that is refused ends the callback. -/
theorem exec_read_of_neg (hpath : virtualFileId path ≠ .catalog)
    (hobject : s.objects fi = some (.opened (.file h))) {pos : ℤ} {h' : FileHandle} {err : Err}
    (hseek : FileHandle.seek m.volume off seekSet (h, s.errors thread) = (.ret pos, (h', err)))
    (hpos : pos < 0) : exec m fuel (thread, .read path fi bufsiz off) s
      = (.ret (.bytes (-toError err) []),
          (s.stored fi (some (.opened (.file h')))).erred thread err) := by
  have hnot : ¬ (virtualFileMode ≠ .none ∧ virtualFileId path ≠ .none) := by rwa [isVirtual_iff]
  rw [exec, if_neg hnot, Call.bind_of_ret (onOpened_onFile hobject hseek), Call.ite_apply,
    if_pos hpos, Call.get_bind_apply, erred_errors, Function.update_self]
  rfl

/-- Any other one is remembered. -/
theorem exec_read_of_nonneg (hpath : virtualFileId path ≠ .catalog)
    (hobject : s.objects fi = some (.opened (.file h))) {pos : ℤ} {h' : FileHandle} {err : Err}
    (hseek : FileHandle.seek m.volume off seekSet (h, s.errors thread) = (.ret pos, (h', err)))
    (hpos : ¬ pos < 0) : exec m fuel (thread, .read path fi bufsiz off) s
      = (.ret .begun, ((s.stored fi (some (.opened (.file h')))).erred thread err).halfway thread
          (some ⟨fi, bufsiz⟩)) := by
  have hnot : ¬ (virtualFileMode ≠ .none ∧ virtualFileId path ≠ .none) := by rwa [isVirtual_iff]
  rw [exec, if_neg hnot, Call.bind_of_ret (onOpened_onFile hobject hseek), Call.ite_apply,
    if_neg hpos]
  rfl

/-- A virtual file is read in one action. -/
theorem exec_read_of_virtual (hpath : virtualFileId path = .catalog) {fh fh' : Fh}
    (hobject : s.objects fi = some (.opened fh)) {r : ℤ} {buf : Str} {err : Err}
    (hread : prodosfsRead m path bufsiz off (fh, s.errors thread) = (.ret (r, buf), (fh', err))) :
    exec m fuel (thread, .read path fi bufsiz off) s
      = (.ret (.bytes r buf), (s.stored fi (some (.opened fh'))).erred thread err) := by
  rw [exec, if_pos (isVirtual_iff.mpr hpath)]
  exact Call.bind_of_ret (onOpened_of_eq hobject hread)

/-- The rest of the callback. -/
theorem exec_readOn (hreading : s.reading thread = some ⟨fi, bufsiz⟩)
    (hobject : s.objects fi = some (.opened (.file h))) {r : ℤ} {buf : Str} {h' : FileHandle}
    {err : Err}
    (hread : readBuffer m.volume bufsiz (h, s.errors thread) = (.ret (r, buf), (h', err))) :
    exec m fuel (thread, .readOn) s = (.ret (.bytes r buf),
      ((s.halfway thread none).stored fi (some (.opened (.file h')))).erred thread err) := by
  rw [exec, Call.get_bind_apply, hreading]
  exact Call.bind_of_ret (onOpened_onFile (s := s.halfway thread none) hobject hread)

/-- **The two actions of a read in a row are `prodosfs_read`.** -/
theorem exec_read_eq (hidle : s.reading thread = none)
    (hobject : s.objects fi = some (.opened (.file h))) (hpath : virtualFileId path ≠ .catalog)
    {r : ℤ} {buf : Str} {fh' : Fh} {err : Err}
    (hread : prodosfsRead m path bufsiz off (.file h, s.errors thread)
      = (.ret (r, buf), (fh', err))) :
    let after := (s.stored fi (some (.opened fh'))).erred thread err
    exec m fuel (thread, .read path fi bufsiz off) s = (.ret (.bytes r buf), after) ∨
      ∃ t, exec m fuel (thread, .read path fi bufsiz off) s = (.ret .begun, t) ∧
        exec m fuel (thread, .readOn) t = (.ret (.bytes r buf), after) := by
  have hnot : ¬ (virtualFileMode ≠ .none ∧ virtualFileId path ≠ .none) := by rwa [isVirtual_iff]
  rcases hcall : readFile m.volume bufsiz off (h, s.errors thread) with ⟨o, h', err'⟩
  have hfile : onFile (readFile m.volume bufsiz off) (.file h, s.errors thread)
      = (o, (.file h', err')) := by
    rw [onFile]
    simp only [hcall]
  rw [prodosfsRead, if_neg hnot, hfile] at hread
  cases hread
  obtain ⟨pos, ⟨h₁, err₁⟩, hseek, hrest⟩ := Call.bind_eq_ret_iff.mp hcall
  by_cases hpos : pos < 0
  · rw [Call.ite_apply, if_pos hpos] at hrest
    cases hrest
    exact Or.inl (exec_read_of_neg fuel bufsiz hpath hobject hseek hpos)
  · rw [Call.ite_apply, if_neg hpos] at hrest
    refine Or.inr ⟨_, exec_read_of_nonneg fuel bufsiz hpath hobject hseek hpos, ?_⟩
    have hrest' : readBuffer m.volume bufsiz (h₁, Function.update s.errors thread err₁ thread)
        = (.ret (r, buf), (h', err)) := by rwa [Function.update_self]
    have hreading : (((s.stored fi (some (.opened (.file h₁)))).erred thread err₁).halfway thread
        (some ⟨fi, bufsiz⟩)).reading thread = some ⟨fi, bufsiz⟩ := by simp
    have hopened : (((s.stored fi (some (.opened (.file h₁)))).erred thread err₁).halfway thread
        (some ⟨fi, bufsiz⟩)).objects fi = some (.opened (.file h₁)) := by simp
    rw [exec_readOn fuel bufsiz hreading hopened hrest']
    simp [erred, stored, halfway, ← hidle]

end

end Server

end Prodosfs
