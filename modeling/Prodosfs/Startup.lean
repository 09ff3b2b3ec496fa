import Prodosfs.CommandLine
import Prodosfs.MountDirectory

/-!
# From the command line to the last exit

`main` handles the options, opens the volume, makes a directory for it if it is asked to, opens a
log file unless it stays in the foreground, and calls `fuse_main`, which calls `prodosfs_mount` once
the file system is mounted. There the program goes into the background: a child process goes on, and
the one that the user has started says so and exits. The child, or the only process, removes the
directory when it exits.

`exit` is also what a return from `main` comes to. The handlers that it runs are those which the
process itself has registered, and the parent has none.

## What is left out

Log messages. `fuse_main` is not part of the program; what it does is one of the things that the
system decides. `prodosfs_umount` does nothing but log, and the memory is the system's after it.
Other programs leave the directories alone.

## Main definitions

* `System` — what the system calls do
* `Startup`, `SystemCall` — the state of the program, and what it has asked for
* `Startup.main`, `Startup.run`

## Main results

* `Startup.run_directories` — which directory a run leaves behind, and when
-/

namespace Prodosfs

/-- How a process ends. -/
inductive Ending where
  | exited (status : ℤ)
  | killed
  deriving DecidableEq, Repr

/-- What becomes of `fuse_main`. -/
inductive FuseMain where
  /-- It returns and has not called `init`. -/
  | refused (rv : ℤ)
  /-- It calls `init`, and returns when the file system has been unmounted. -/
  | served (rv : ℤ)
  /-- It calls `init`, and the process is killed. -/
  | killed
  deriving DecidableEq, Repr

/-- What the system does. -/
structure System where
  realpath : Str → Option Str
  env : Environment
  /-- The file that is opened. -/
  image : Str → ImageFile
  stat : ℕ → Str → StatAnswer
  /-- `errno`, when the volume has been opened. -/
  errno : ℤ
  /-- The parent of a new directory is missing, say. -/
  mkdirRefuses : Str → Bool
  rmdirRefuses : Str → Bool
  /-- The descriptor of a file that is opened for writing, or `-1`. -/
  openLog : Str → ℤ
  uid : ℕ
  gid : ℕ
  fuseMain : List Str → FuseMain
  forkRefuses : Bool

/-- A system call that has been made, and its answer. -/
inductive SystemCall where
  | mkdir (path : Str) (made : Bool)
  | rmdir (path : Str) (removed : Bool)
  | openLog (path : Str) (fd : ℤ)
  | fuseMain (args : List Str) (result : FuseMain)
  | fork (done : Bool)
  deriving DecidableEq, Repr

/-- The program, its process being the child once there is one. -/
structure Startup where
  settings : Settings := {}
  /-- `mount_dir` -/
  mountDir : Option Str := none
  /-- `disk_image` -/
  diskImage : Option Str := none
  /-- `log_fd` -/
  logFd : ℤ := 0
  /-- `atexit(S_Cleanup)` has been called. -/
  cleanup : Bool := false
  /-- How the parent has ended. -/
  parent : Option Ending := none
  /-- The directories that there are. -/
  directories : Str → Bool
  calls : List SystemCall := []
  stdout : Str := []
  stderr : Str := []

namespace Startup

/-- Print something. -/
def printed (s : Startup) (text : Str) : Startup := { s with stdout := s.stdout ++ text }

/-- Complain about something. -/
def complained (s : Startup) (text : Str) : Startup := { s with stderr := s.stderr ++ text }

/-- A system call has been made. -/
def called (s : Startup) (call : SystemCall) : Startup := { s with calls := s.calls ++ [call] }

/-- A log file has been asked for. -/
def opened (s : Startup) (logFile : Str) (fd : ℤ) : Startup :=
  { s.called (.openLog logFile fd) with logFd := fd }

/-- `fuse_main` has been called. -/
def entered (s : Startup) (args : List Str) (result : FuseMain) : Startup :=
  let level := if s.settings.debug then logMax else s.settings.logLevel
  { s.called (.fuseMain args result) with settings := { s.settings with logLevel := level } }

/-- There is a child, and the parent runs `exit`, without a handler. -/
def forked (s : Startup) (text : Str) : Startup :=
  { (s.called (.fork true)).printed text with parent := some (.exited exitSuccess) }

/-- `S_Cleanup` -/
def sCleanup (sys : System) (s : Startup) : Startup :=
  match s.mountDir with
  | none => s
  | some dir =>
    if sys.rmdirRefuses dir then s.called (.rmdir dir false)
    else { s.called (.rmdir dir true) with directories := Function.update s.directories dir false }

/-- `exit` -/
def exit {α : Type} (sys : System) (status : ℤ) : Call Ending Startup α := do
  modify fun s => if s.cleanup then s.sCleanup sys else s
  Call.throw (.exited status)

/-- A complaint, and `return EXIT_FAILURE` in `main`. -/
def fail {α : Type} (sys : System) (text : Str) : Call Ending Startup α := do
  modify fun s => s.complained text
  exit sys exitFailure

/-- What a pointer to a string leads to. -/
def deref (pointer : Option Str) : Call Ending Startup Str :=
  match pointer with
  | none => Call.fault
  | some text => pure text

/-- The first part of `main`: the options, and the two operands. -/
def readArguments (sys : System) (argv : List Str) : Call Ending Startup Unit :=
  match handleOptions argv with
  | .error e => do
    modify fun s => (s.printed e.stdout).complained e.stderr
    exit sys e.status
  | .ok (settings, operands) => do
    modify fun s => { s with settings := settings }
    match operands with
    | dir :: image :: _ =>
      modify fun s => { s with mountDir := sys.realpath dir, diskImage := sys.realpath image }
    | _ => fail sys (ascii "usage: prodosfs [opts] <mount_dir> <image_file>\n")

/-- `volume = new volume_t(disk_image)` -/
def newVolume (sys : System) : Call Ending Startup Volume := do
  let s ← get
  let image ← deref s.diskImage
  match (openVolume sys.env (sys.image image)).1 with
  | .ret v => pure v
  | .throw e => fail sys (ascii "prodosfs: " ++ ascii e.what ++ ascii " -- " ++ image ++ ascii "\n")
  | .fault => Call.fault
  | .timeout => Call.timeout

/-- What `S_UpdateMountDirectory` says when it finds no directory. -/
def noDirectory (v : Volume) (path : Str) : Str :=
  let name := Entry.fileName v.header
  if isValidName name then
    ascii "prodosfs: too many directories with volume name -- " ++ path ++ ascii "\n"
  else
    ascii "prodosfs: invalid ProDOS volume name -- \"" ++ cStr name ++ ascii "\"\n"

/-- `S_UpdateMountDirectory`, called by `main`. -/
def updateMountDirectory (sys : System) (v : Volume) : Call Ending Startup Unit := do
  let s ← get
  let dir ← deref s.mountDir
  match MountDir.updateMountDirectory sys.stat v (.start dir sys.errno) with
  | (.ret found, m) =>
    match (MountDir.text m).1 with
    | .ret path => do
      set { s with mountDir := some path }
      if found then pure () else fail sys (noDirectory v path)
    | _ => Call.fault
  | (.throw _, _) => Call.throw .killed
  | (.fault, _) => Call.fault
  | (.timeout, _) => Call.timeout

/-- `mkdir`, called by `main`. What is there cannot be made. -/
def makeMountDirectory (sys : System) : Call Ending Startup Unit := do
  let s ← get
  let dir ← deref s.mountDir
  if s.directories dir ∨ sys.mkdirRefuses dir then
    set (s.called (.mkdir dir false))
    fail sys (ascii "prodosfs: unable to create mount directory -- " ++ dir ++ ascii "\n")
  else
    set { s.called (.mkdir dir true) with directories := Function.update s.directories dir true }

/-- `std::filesystem::path::stem`, of the last component of a path. -/
def stem (path : Str) : Str :=
  let filename := pathFilename path
  let front := (filename.reverse.dropWhile (· ≠ 46)).drop 1
  if filename = ascii ".." ∨ front = [] then filename else front.reverse

/-- `S_RedirectToLogfile`, called by `main`. -/
def redirectToLogfile (sys : System) : Call Ending Startup Unit := do
  let s ← get
  let image ← deref s.diskImage
  let logFile := ascii "/tmp/" ++ stem image ++ ascii ".log"
  let fd := sys.openLog logFile
  set (s.opened logFile fd)
  if fd < 0 then fail sys (ascii "prodosfs: unable to open log file -- " ++ logFile ++ ascii "\n")
  else pure ()

/-- The arguments of `fuse_main`. -/
def fuseArgs (sys : System) (debug : Bool) (mountDir : Str) : List Str :=
  [ascii "prodosfs", ascii "-oauto_unmount", ascii "-ouid=" ++ digits 10 sys.uid,
    ascii "-ogid=" ++ digits 10 sys.gid, ascii "-f"] ++ (if debug then [ascii "-d"] else [])
    ++ [mountDir]

/-- The way into the background, in `prodosfs_mount`. The program goes on as the child. -/
def intoBackground (sys : System) : Call Ending Startup Unit := do
  let s ← get
  if 0 < s.logFd then
    if sys.forkRefuses then
      set ((s.called (.fork false)).complained (ascii "prodosfs: unable to fork\n"))
      exit sys exitFailure
    else
      set (s.forked (ascii "prodosfs: mounted " ++ s.diskImage.getD [] ++ ascii " in "
        ++ s.mountDir.getD [] ++ ascii "\n"))
  else pure ()

/-- `prodosfs_mount` -/
def prodosfsMount (sys : System) : Call Ending Startup Unit := do
  intoBackground sys
  modify fun s => { s with cleanup := s.cleanup || s.settings.useName }

/-- `fuse_main`, with the arguments that `main` makes for it. -/
def enterFuse (sys : System) : Call Ending Startup ℤ := do
  let s ← get
  let dir ← deref s.mountDir
  let args := fuseArgs sys s.settings.debug dir
  set (s.entered args (sys.fuseMain args))
  match sys.fuseMain args with
  | .refused rv => pure rv
  | .served rv => do
    prodosfsMount sys
    pure rv
  | .killed => do
    prodosfsMount sys
    Call.throw .killed

/-- The part of `main` for `-n`. -/
def ownDirectory (sys : System) (v : Volume) : Call Ending Startup Unit := do
  let s ← get
  if s.settings.useName then do
    updateMountDirectory sys v
    makeMountDirectory sys
  else pure ()

/-- The part of `main` for the log file. -/
def ownLogfile (sys : System) : Call Ending Startup Unit := do
  let s ← get
  if s.settings.foreground = false ∧ s.settings.debug = false then redirectToLogfile sys
  else pure ()

/-- `main` -/
def main (sys : System) (argv : List Str) : Call Ending Startup ℤ := do
  readArguments sys argv
  let v ← newVolume sys
  ownDirectory sys v
  ownLogfile sys
  enterFuse sys

/-- The program, with the exit behind `main`. -/
def run (sys : System) (argv : List Str) : Call Ending Startup Unit := do
  let rv ← main sys argv
  exit sys rv

/-! ### Exits -/

section
variable {sys : System} {s : Startup}

/-- An exit before the handler has been registered. -/
theorem exit_of_not_cleanup {α : Type} (h : s.cleanup = false) (status : ℤ) :
    exit sys status s = ((.throw (.exited status), s) : Outcome Ending α × Startup) := by
  rw [exit, Call.modify_bind_apply, if_neg (by simp [h])]
  rfl

/-- An exit after it. -/
theorem exit_of_cleanup {α : Type} (h : s.cleanup = true) (status : ℤ) :
    exit sys status s
      = ((.throw (.exited status), s.sCleanup sys) : Outcome Ending α × Startup) := by
  rw [exit, Call.modify_bind_apply, if_pos h]
  rfl

theorem fail_of_not_cleanup {α : Type} (h : s.cleanup = false) (text : Str) :
    fail sys text s
      = ((.throw (.exited exitFailure), s.complained text) : Outcome Ending α × Startup) := by
  have hcomplained : (s.complained text).cleanup = false := h
  rw [fail, Call.modify_bind_apply, exit_of_not_cleanup hcomplained]

/-! ### The directory -/

/-- The answer is one after which the directory that was made is not removed. -/
def Abandons : SystemCall → Prop
  | .mkdir _ _ => False
  | .rmdir _ removed => removed = false
  | .openLog _ fd => fd < 0
  | .fuseMain _ result => ∀ rv, result ≠ .served rv
  | .fork done => done = false

/-- The call has nothing to do with directories. -/
def Elsewhere (call : SystemCall) : Prop :=
  (∀ path made, call ≠ .mkdir path made) ∧ ∀ path removed, call ≠ .rmdir path removed

/-- What the program leaves of the directories. -/
structure Accounted (before : Str → Bool) (s : Startup) : Prop where
  /-- A directory is removed only if the program has made it. -/
  removed : ∀ path removed, .rmdir path removed ∈ s.calls → .mkdir path true ∈ s.calls
  /-- Nothing else is touched. -/
  untouched : ∀ path, .mkdir path true ∉ s.calls → s.directories path = before path
  /-- The directory is made where there was none. -/
  made : ∀ path, .mkdir path true ∈ s.calls → before path = false
  /-- When it is left behind. -/
  left : ∀ path, .mkdir path true ∈ s.calls →
    (s.directories path ↔ ∃ call ∈ s.calls, Abandons call)

/-- No directory has been made, and none is asked for. -/
structure Unnamed (before : Str → Bool) (s : Startup) : Prop where
  named : s.settings.useName = false
  directories : s.directories = before
  elsewhere : ∀ call ∈ s.calls, Elsewhere call

/-- The directory has been made. -/
structure Named (before : Str → Bool) (dir : Str) (s : Startup) : Prop where
  named : s.settings.useName = true
  mountDir : s.mountDir = some dir
  free : before dir = false
  directories : s.directories = Function.update before dir true
  calls : ∃ more, s.calls = .mkdir dir true :: more ∧ ∀ call ∈ more, Elsewhere call

variable {before : Str → Bool} {dir : Str}

theorem accounted_of_elsewhere (hdirectories : s.directories = before)
    (h : ∀ call ∈ s.calls, ∀ path,
      call ≠ .mkdir path true ∧ ∀ removed, call ≠ .rmdir path removed) :
    Accounted before s where
  removed path removed hmem := absurd rfl ((h _ hmem path).2 removed)
  untouched path _ := by rw [hdirectories]
  made path hmem := absurd rfl (h _ hmem path).1
  left path hmem := absurd rfl (h _ hmem path).1

theorem Unnamed.accounted (h : Unnamed before s) : Accounted before s :=
  accounted_of_elsewhere h.directories fun call hcall path =>
    ⟨(h.elsewhere call hcall).1 path true, (h.elsewhere call hcall).2 path⟩

/-- The directory that was made is the only one. -/
theorem Named.mkdir_mem_iff (h : Named before dir s) {path : Str} :
    .mkdir path true ∈ s.calls ↔ path = dir := by
  obtain ⟨more, hcalls, helsewhere⟩ := h.calls
  rw [hcalls, List.mem_cons]
  constructor
  · rintro (heq | hmem)
    · cases heq
      rfl
    · exact absurd rfl ((helsewhere _ hmem).1 path true)
  · rintro rfl
    exact Or.inl rfl

theorem Named.not_rmdir_mem (h : Named before dir s) (path : Str) (removed : Bool) :
    .rmdir path removed ∉ s.calls := by
  obtain ⟨more, hcalls, helsewhere⟩ := h.calls
  rw [hcalls, List.mem_cons]
  rintro (heq | hmem)
  · cases heq
  · exact absurd rfl ((helsewhere _ hmem).2 path removed)

/-- **The directory is left behind.** -/
theorem Named.accounted (h : Named before dir s) (hleft : ∃ call ∈ s.calls, Abandons call) :
    Accounted before s where
  removed path removed hmem := absurd hmem (h.not_rmdir_mem path removed)
  untouched path hmem := by
    rw [h.directories, Function.update_of_ne fun heq => hmem (h.mkdir_mem_iff.mpr heq)]
  made path hmem := h.mkdir_mem_iff.mp hmem ▸ h.free
  left path hmem := by
    rw [h.mkdir_mem_iff.mp hmem, h.directories, Function.update_self]
    exact iff_of_true rfl hleft

/-- **The directory is removed,** if it can be. -/
theorem Named.accounted_rmdir (h : Named before dir s) (hnone : ∀ call ∈ s.calls, ¬ Abandons call)
    {t : Startup} {removed : Bool} (hcalls : t.calls = s.calls ++ [.rmdir dir removed])
    (hdirectories : t.directories = if removed then before else s.directories) :
    Accounted before t := by
  have hmem : ∀ path, .mkdir path true ∈ t.calls ↔ path = dir := by
    intro path
    rw [hcalls, List.mem_append, h.mkdir_mem_iff, List.mem_singleton]
    simp
  have hdir : t.directories dir = !removed := by
    rw [hdirectories]
    cases removed
    · simp [h.directories]
    · simp [h.free]
  refine ⟨fun path removed' hrmdir => ?_, fun path hnot => ?_, fun path hmade => ?_,
    fun path hmade => ?_⟩
  · rw [hcalls, List.mem_append, List.mem_singleton] at hrmdir
    have heq := hrmdir.resolve_left (h.not_rmdir_mem path removed')
    cases heq
    exact (hmem dir).mpr rfl
  · have hne : path ≠ dir := fun heq => hnot ((hmem path).mpr heq)
    rw [hdirectories]
    cases removed
    · simp [h.directories, hne]
    · rfl
  · rw [(hmem path).mp hmade]
    exact h.free
  · rw [(hmem path).mp hmade, hdir, hcalls]
    cases removed
    · exact iff_of_true rfl ⟨.rmdir dir false, by simp, rfl⟩
    · refine iff_of_false Bool.false_ne_true ?_
      rintro ⟨call, hcall, habandons⟩
      rcases List.mem_append.mp hcall with hcall | hcall
      · exact hnone call hcall habandons
      · rw [List.mem_singleton.mp hcall] at habandons
        cases habandons

theorem Named.accounted_cleanup (h : Named before dir s)
    (hnone : ∀ call ∈ s.calls, ¬ Abandons call) : Accounted before (s.sCleanup sys) := by
  have hupdate : Function.update s.directories dir false = before := by
    rw [h.directories, Function.update_idem, ← h.free, Function.update_eq_self]
  simp only [sCleanup, h.mountDir]
  split
  · exact h.accounted_rmdir hnone (t := s.called (.rmdir dir false)) rfl rfl
  · exact h.accounted_rmdir hnone
      (t := { s.called (.rmdir dir true) with
        directories := Function.update s.directories dir false }) rfl hupdate

/-- There has been such an answer. -/
def Abandoned (s : Startup) : Prop := ∃ call ∈ s.calls, Abandons call

theorem abandoned_called_iff (call : SystemCall) {t : Startup}
    (hcalls : t.calls = s.calls ++ [call]) : t.Abandoned ↔ s.Abandoned ∨ Abandons call := by
  simp only [Abandoned, hcalls, List.mem_append, List.mem_singleton]
  constructor
  · rintro ⟨c, hc | rfl, habandons⟩
    · exact Or.inl ⟨c, hc, habandons⟩
    · exact Or.inr habandons
  · rintro (⟨c, hc, habandons⟩ | habandons)
    · exact ⟨c, Or.inl hc, habandons⟩
    · exact ⟨call, Or.inr rfl, habandons⟩

/-! ### The parts of main -/

/-- The program before it has asked for anything. -/
structure Idle (before : Str → Bool) (s : Startup) : Prop where
  directories : s.directories = before
  calls : s.calls = []
  cleanup : s.cleanup = false

theorem Idle.accounted (h : Idle before s) : Accounted before s :=
  accounted_of_elsewhere h.directories fun call hcall => by
    rw [h.calls] at hcall
    exact absurd hcall List.not_mem_nil

/-- A complaint changes nothing about directories. -/
theorem leaves_fail {α : Type} {J : α → Startup → Prop} (h : Accounted before s)
    (hcleanup : s.cleanup = false) (text : Str) :
    Call.Leaves J (fun _ => Accounted before) (fail sys text) s :=
  .of_throw (fail_of_not_cleanup hcleanup text) ⟨h.removed, h.untouched, h.made, h.left⟩

theorem leaves_readArguments (h : Idle before s) (argv : List Str) :
    Call.Leaves (fun _ => Idle before) (fun _ => Accounted before) (readArguments sys argv) s := by
  rw [readArguments]
  rcases handleOptions argv with e | ⟨settings, operands⟩
  · have hidle : Idle before ((s.printed e.stdout).complained e.stderr) :=
      ⟨h.directories, h.calls, h.cleanup⟩
    exact .modify_bind (.of_throw (exit_of_not_cleanup hidle.cleanup e.status) hidle.accounted)
  · have hidle : Idle before { s with settings := settings } := ⟨h.directories, h.calls, h.cleanup⟩
    refine .modify_bind ?_
    rcases operands with _ | ⟨dir, _ | ⟨image, rest⟩⟩
    · exact leaves_fail hidle.accounted hidle.cleanup _
    · exact leaves_fail hidle.accounted hidle.cleanup _
    · exact .of_eq rfl ⟨h.directories, h.calls, h.cleanup⟩

/-- The image has a path. -/
def Imaged (s : Startup) : Prop := ∃ image, s.diskImage = some image

/-- What a pointer to a string leads to. -/
theorem leaves_deref {pointer : Option Str} (h : Accounted before s) :
    Call.Leaves (fun text t => t = s ∧ pointer = some text) (fun _ => Accounted before)
      (deref pointer) s := by
  cases pointer with
  | none => exact .fault h
  | some text => exact .pure ⟨rfl, rfl⟩

theorem leaves_newVolume (h : Idle before s) :
    Call.Leaves (fun _ t => Idle before t ∧ Imaged t) (fun _ => Accounted before) (newVolume sys)
      s := by
  refine .get_bind (.bind (leaves_deref h.accounted) ?_)
  rintro image t ⟨rfl, himage⟩
  rcases (openVolume sys.env (sys.image image)).1 with v | e | _ | _
  · exact .pure ⟨h, image, himage⟩
  · exact leaves_fail h.accounted h.cleanup _
  · exact .fault h.accounted
  · exact .timeout h.accounted

theorem leaves_updateMountDirectory (h : Idle before s) (himage : Imaged s) (v : Volume) :
    Call.Leaves (fun _ t => Idle before t ∧ Imaged t ∧ t.settings = s.settings)
      (fun _ => Accounted before) (updateMountDirectory sys v) s := by
  refine .get_bind (.bind (leaves_deref h.accounted) ?_)
  rintro dir t ⟨rfl, hdir⟩
  rcases MountDir.updateMountDirectory sys.stat v (.start dir sys.errno) with ⟨found | e | _ | _, m⟩
  · dsimp only
    rcases (MountDir.text m).1 with path | e | _ | _
    · have hidle : Idle before { t with mountDir := some path } :=
        ⟨h.directories, h.calls, h.cleanup⟩
      refine .set_bind ?_
      refine .ite (fun _ => .pure ⟨hidle, himage, rfl⟩) fun _ => ?_
      exact leaves_fail hidle.accounted hidle.cleanup _
    all_goals exact .fault h.accounted
  · exact .throw h.accounted
  · exact .fault h.accounted
  · exact .timeout h.accounted

/-! ### After the directory -/

/-- The directory is there if there is to be one, and no handler is registered. -/
structure Begun (before : Str → Bool) (s : Startup) : Prop where
  directory : Unnamed before s ∨ ∃ dir, Named before dir s
  cleanup : s.cleanup = false

theorem Begun.accounted (h : Begun before s) (hleft : s.Abandoned) : Accounted before s := by
  rcases h.directory with h | ⟨dir, h⟩
  · exact h.accounted
  · exact h.accounted hleft

/-- Another call. -/
theorem Begun.called (h : Begun before s) {t : Startup} {call : SystemCall}
    (hcall : Elsewhere call) (hcalls : t.calls = s.calls ++ [call])
    (hname : t.settings.useName = s.settings.useName) (hdir : t.mountDir = s.mountDir)
    (hdirectories : t.directories = s.directories) (hcleanup : t.cleanup = s.cleanup) :
    Begun before t := by
  refine ⟨?_, hcleanup.trans h.cleanup⟩
  rcases h.directory with h | ⟨dir, h⟩
  · refine Or.inl ⟨hname.trans h.named, hdirectories.trans h.directories, fun c hc => ?_⟩
    rw [hcalls, List.mem_append, List.mem_singleton] at hc
    rcases hc with hc | rfl
    · exact h.elsewhere c hc
    · exact hcall
  · obtain ⟨more, hmore, helsewhere⟩ := h.calls
    refine Or.inr ⟨dir, hname.trans h.named, hdir.trans h.mountDir, h.free,
      hdirectories.trans h.directories, more ++ [call], ?_, fun c hc => ?_⟩
    · rw [hcalls, hmore]
      rfl
    · rw [List.mem_append, List.mem_singleton] at hc
      rcases hc with hc | rfl
      · exact helsewhere c hc
      · exact hcall

/-- The program before it calls `fuse_main`. -/
def Ready (before : Str → Bool) (s : Startup) : Prop :=
  Begun before s ∧ Imaged s ∧ ¬ s.Abandoned

theorem Idle.ready (h : Idle before s) (himage : Imaged s) (hname : s.settings.useName = false) :
    Ready before s := by
  refine ⟨⟨Or.inl ⟨hname, h.directories, fun call hcall => ?_⟩, h.cleanup⟩, himage, ?_⟩
  · rw [h.calls] at hcall
    exact absurd hcall List.not_mem_nil
  · rintro ⟨call, hcall, -⟩
    rw [h.calls] at hcall
    exact absurd hcall List.not_mem_nil

/-- When the directory has been made, it is noted; and otherwise the program is at its end. -/
theorem leaves_makeMountDirectory (h : Idle before s) (himage : Imaged s)
    (hname : s.settings.useName = true) :
    Call.Leaves (fun _ => Ready before) (fun _ => Accounted before) (makeMountDirectory sys) s := by
  refine .get_bind (.bind (leaves_deref h.accounted) ?_)
  rintro dir t ⟨rfl, hdir⟩
  have hcalls : ∀ call, (t.called call).calls = [call] := fun call => by
    rw [Startup.called, h.calls, List.nil_append]
  refine .ite (fun _ => ?_) fun hfree => ?_
  · have hcleanup : (t.called (.mkdir dir false)).cleanup = false := h.cleanup
    refine .set_bind (leaves_fail ?_ hcleanup _)
    refine accounted_of_elsewhere h.directories fun call hcall path => ?_
    have hcall : call ∈ (t.called (.mkdir dir false)).calls := hcall
    rw [hcalls, List.mem_singleton] at hcall
    rw [hcall]
    exact ⟨by simp, fun removed => by simp⟩
  · rw [not_or, Bool.not_eq_true, h.directories] at hfree
    refine .of_eq rfl ⟨⟨Or.inr ⟨dir, hname, hdir, hfree.1, ?_, [], hcalls _, ?_⟩, h.cleanup⟩,
      himage, ?_⟩
    · exact congrArg (Function.update · dir true) h.directories
    · exact fun call hcall => absurd hcall List.not_mem_nil
    · rintro ⟨call, hcall, habandons⟩
      have hcall : call ∈ (t.called (.mkdir dir true)).calls := hcall
      rw [hcalls, List.mem_singleton] at hcall
      rw [hcall] at habandons
      exact habandons

theorem leaves_redirectToLogfile (h : Ready before s) :
    Call.Leaves (fun _ => Ready before) (fun _ => Accounted before) (redirectToLogfile sys) s := by
  obtain ⟨hbegun, ⟨image, himage⟩, hnone⟩ := h
  have hderef : deref s.diskImage = pure image := by rw [himage, deref]
  refine .get_bind ?_
  rw [hderef]
  refine .pure_bind ?_
  generalize ascii "/tmp/" ++ stem image ++ ascii ".log" = logFile
  have hopened : Begun before (s.opened logFile (sys.openLog logFile)) :=
    hbegun.called ⟨by simp, by simp⟩ rfl rfl rfl rfl rfl
  have habandoned : (s.opened logFile (sys.openLog logFile)).Abandoned
      ↔ s.Abandoned ∨ sys.openLog logFile < 0 := abandoned_called_iff (.openLog _ _) rfl
  refine .set_bind (.ite (fun hfd => ?_) fun hfd => ?_)
  · exact leaves_fail (hopened.accounted (habandoned.mpr (Or.inr hfd))) hopened.cleanup _
  · exact .pure ⟨hopened, ⟨image, himage⟩, fun hleft => (habandoned.mp hleft).elim hnone hfd⟩

/-- The handler is registered if it has something to remove. -/
structure Served (before : Str → Bool) (s : Startup) : Prop where
  directory : Unnamed before s ∨ ∃ dir, Named before dir s
  cleanup : s.cleanup = s.settings.useName

theorem leaves_intoBackground (h : Begun before s) :
    Call.Leaves (fun _ t => Begun before t ∧ (t.Abandoned ↔ s.Abandoned))
      (fun _ => Accounted before) (intoBackground sys) s := by
  refine .get_bind (.ite (fun _ => .ite (fun _ => ?_) fun _ => ?_) fun _ => ?_)
  · generalize ascii "prodosfs: unable to fork\n" = text
    have hforked : Begun before ((s.called (.fork false)).complained text) :=
      h.called ⟨by simp, by simp⟩ rfl rfl rfl rfl rfl
    have habandoned : ((s.called (.fork false)).complained text).Abandoned ↔ s.Abandoned ∨ _ :=
      abandoned_called_iff (.fork false) rfl
    refine .set_bind (.of_throw (exit_of_not_cleanup hforked.cleanup _) ?_)
    exact hforked.accounted (habandoned.mpr (Or.inr rfl))
  · generalize ascii "prodosfs: mounted " ++ s.diskImage.getD [] ++ ascii " in "
      ++ s.mountDir.getD [] ++ ascii "\n" = text
    have hforked : Begun before (s.forked text) :=
      h.called ⟨by simp, by simp⟩ rfl rfl rfl rfl rfl
    have habandoned : (s.forked text).Abandoned ↔ s.Abandoned ∨ _ :=
      abandoned_called_iff (.fork true) rfl
    exact .of_eq rfl ⟨hforked, habandoned.trans (or_iff_left (by simp [Abandons]))⟩
  · exact .pure ⟨h, Iff.rfl⟩

/-- The handler is registered after the fork. -/
theorem leaves_prodosfsMount (h : Begun before s) :
    Call.Leaves (fun _ t => Served before t ∧ (t.Abandoned ↔ s.Abandoned))
      (fun _ => Accounted before) (prodosfsMount sys) s := by
  refine .bind (leaves_intoBackground h) fun _ t ⟨hbegun, habandoned⟩ => .of_eq rfl ⟨⟨?_, ?_⟩, ?_⟩
  · exact hbegun.directory.imp (fun h => ⟨h.named, h.directories, h.elsewhere⟩)
      fun ⟨dir, h⟩ => ⟨dir, h.named, h.mountDir, h.free, h.directories, h.calls⟩
  · exact congrArg (· || t.settings.useName) hbegun.cleanup
  · exact habandoned

theorem Served.accounted (h : Served before s) (hleft : s.Abandoned) : Accounted before s := by
  rcases h.directory with h | ⟨dir, h⟩
  · exact h.accounted
  · exact h.accounted hleft

/-- The program before its last exit. -/
def Finished (before : Str → Bool) (s : Startup) : Prop :=
  Begun before s ∧ s.Abandoned ∨ Served before s ∧ ¬ s.Abandoned

theorem Finished.exit {α : Type} {J : α → Startup → Prop} (h : Finished before s) (status : ℤ) :
    Call.Leaves J (fun _ => Accounted before) (exit sys status) s := by
  rcases h with ⟨hbegun, hleft⟩ | ⟨⟨hunnamed | ⟨dir, hnamed⟩, hcleanup⟩, hnone⟩
  · exact .of_throw (exit_of_not_cleanup hbegun.cleanup status) (hbegun.accounted hleft)
  · have hnot : s.cleanup = false := hcleanup.trans hunnamed.named
    exact .of_throw (exit_of_not_cleanup hnot status) hunnamed.accounted
  · refine .of_throw (exit_of_cleanup (hcleanup.trans hnamed.named) status) ?_
    exact hnamed.accounted_cleanup fun call hcall habandons => hnone ⟨call, hcall, habandons⟩

theorem leaves_enterFuse (h : Ready before s) :
    Call.Leaves (fun _ => Finished before) (fun _ => Accounted before) (enterFuse sys) s := by
  obtain ⟨hbegun, -, hnone⟩ := h
  refine .get_bind ?_
  cases hdir : s.mountDir with
  | none =>
    rcases hbegun.directory with hunnamed | ⟨dir, hnamed⟩
    · exact .fault hunnamed.accounted
    · exact absurd (hdir.symm.trans hnamed.mountDir) (Option.some_ne_none dir).symm
  | some dir =>
    refine .pure_bind ?_
    generalize fuseArgs sys s.settings.debug dir = args
    have hentered : Begun before (s.entered args (sys.fuseMain args)) :=
      hbegun.called ⟨by simp, by simp⟩ rfl rfl rfl rfl rfl
    have habandoned : (s.entered args (sys.fuseMain args)).Abandoned
        ↔ ∀ rv, sys.fuseMain args ≠ .served rv :=
      (abandoned_called_iff (.fuseMain _ _) rfl).trans (or_iff_right hnone)
    refine .set_bind ?_
    generalize s.entered args (sys.fuseMain args) = t at hentered habandoned
    cases hmain : sys.fuseMain args with
    | refused rv =>
      have hleft := habandoned.mpr fun rv => by simp [hmain]
      exact .pure (Or.inl ⟨hentered, hleft⟩)
    | served rv =>
      have hnot : ¬ t.Abandoned := fun hleft => habandoned.mp hleft rv hmain
      refine .bind (leaves_prodosfsMount hentered) fun _ u ⟨hserved, hiff⟩ => ?_
      exact .pure (Or.inr ⟨hserved, fun hleft => hnot (hiff.mp hleft)⟩)
    | killed =>
      have hleft := habandoned.mpr fun rv => by simp [hmain]
      refine .bind (leaves_prodosfsMount hentered) fun _ u ⟨hserved, hiff⟩ => ?_
      exact .throw (hserved.accounted (hiff.mpr hleft))

theorem leaves_ownDirectory (h : Idle before s) (himage : Imaged s) (v : Volume) :
    Call.Leaves (fun _ => Ready before) (fun _ => Accounted before) (ownDirectory sys v) s := by
  refine .get_bind (.ite (fun hname => ?_) fun hname => ?_)
  · refine .bind (leaves_updateMountDirectory h himage v) fun _ t ⟨hidle, himage, hsettings⟩ => ?_
    exact leaves_makeMountDirectory hidle himage (hsettings ▸ hname)
  · exact .pure (h.ready himage (Bool.eq_false_iff.mpr hname))

theorem leaves_ownLogfile (h : Ready before s) :
    Call.Leaves (fun _ => Ready before) (fun _ => Accounted before) (ownLogfile sys) s :=
  .get_bind (.ite (fun _ => leaves_redirectToLogfile h) fun _ => .pure h)

theorem leaves_main (h : Idle before s) (argv : List Str) :
    Call.Leaves (fun _ => Finished before) (fun _ => Accounted before) (main sys argv) s := by
  refine .bind (leaves_readArguments h argv) fun _ t hidle => ?_
  refine .bind (leaves_newVolume hidle) fun v u ⟨hidle, himage⟩ => ?_
  refine .bind (leaves_ownDirectory hidle himage v) fun _ u hready => ?_
  exact .bind (leaves_ownLogfile hready) fun _ u hready => leaves_enterFuse hready

/-- **The directory that the program makes** is the only one that it ever removes, it touches no
other, and it leaves it behind exactly when a system call after `mkdir` has let it down. -/
theorem run_directories (sys : System) (argv : List Str) (directories : Str → Bool) :
    Accounted directories (run sys argv { directories := directories }).2 := by
  have hidle : Idle directories { directories := directories } := ⟨rfl, rfl, rfl⟩
  have hrun : Call.Leaves (fun _ => Accounted directories) (fun _ => Accounted directories)
      (run sys argv) { directories := directories } :=
    (leaves_main hidle argv).bind fun rv t hfinished => hfinished.exit rv
  exact hrun.elim

end

end Startup

end Prodosfs
