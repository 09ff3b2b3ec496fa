import Prodosfs.Listxattr
import Prodosfs.Handlers
import Prodosfs.Slots
import Prodosfs.Errors

/-!
# The callbacks and the listed names

Four callbacks take a listed name back to the entry it stands for, each for itself. Three of them
take the suffix off first. `getxattr` does not: for a name with a suffix it looks for an entry that
has the whole of it for its name, which is another one, if there is any. And two of them ask for the
virtual file before they look, so that an entry of that name is only ever found by the other two.

What a callback looks for is not in its result, and two entries may well have the same attributes.
So the paths that the callbacks hand to `GetEntry` are written down in a table, and each callback is
what the table makes of it: look there, then answer for the entry, or with the error if there is
none. On a well-formed volume the difference shows in the results, for there no entry has a name
with a colon in it, and `getxattr` finds nothing at all.

## Main definitions

* `Mount.lookedUp` — the path that a callback hands to `GetEntry`
* `Mount.LooksUp` — a callback looks there, and answers for what it finds
* `Mount.AnswersFor` — what a callback answers for an entry
* `Mount.CallbacksAgree` — the callbacks find the same entry and answer for it, and its attributes
  can be fetched

## Main results

* `looksUp` — every callback looks where the table says
* `answersFor_of_resolves` — a callback answers for the entry it finds
* `callbacks_agree_iff` — the listed names for which the callbacks agree
-/

namespace Prodosfs

/-! ### What is looked up -/

/-- The callbacks that take a path to an entry. -/
inductive Callback where
  | getattr
  | opens
  | getxattr
  | listxattr

/-- The path that a callback hands to `GetEntry`, unless it takes it for that of a virtual file. -/
def Mount.lookedUp (m : Mount) (callback : Callback) (path : Str) : Option Str :=
  let filename := prodosFilename m.extensionMode path
  match callback with
  | .getattr =>
    if virtualFileMode ≠ .none ∧ virtualFileId path ≠ .none then none else some filename
  | .opens =>
    if virtualFileMode ≠ .none ∧ virtualFileId filename ≠ .none then none else some filename
  | .getxattr => some path
  | .listxattr => some filename

/-- `GetEntry` finds the entry `e`, whatever the error was. -/
def Volume.Finds (v : Volume) (fuel : ℕ) (path : Str) (e : EntryPtr) : Prop :=
  ∀ err, ∃ err', getEntry v fuel path err = (.ret (some e), err')

/-- A callback resolves a path to the entry `e`. -/
def Mount.Resolves (m : Mount) (fuel : ℕ) (callback : Callback) (path : Str) (e : EntryPtr) :
    Prop :=
  ∃ filename, m.lookedUp callback path = some filename ∧ m.volume.Finds fuel filename e

/-! ### What is answered -/

section
variable (m : Mount) (fuel : ℕ)

/-- What `prodosfs_getattr` answers for an entry. -/
def Mount.statAnswer (st : Stat) (e : EntryPtr) : Call Exn Err (ℤ × Stat) := do
  let st ← statOf m fuel e st
  pure (0, st)

/-- What `prodosfs_open` answers for an entry. -/
def Mount.openAnswer (e : EntryPtr) : Call Exn Err (ℤ × Option Fh) :=
  if Entry.isFile (m.volume.entry e) = false then do
    set Err.unsupportedStorageType
    pure (-toError .unsupportedStorageType, none)
  else do
    let fh ← FileHandle.create m.volume e
    pure (0, some (.file fh))

/-- What `prodosfs_getxattr` answers for an entry. -/
def Mount.getxattrAnswer (name : Str) (size : ℕ) (e : EntryPtr) : Call Exn Err (ℤ × Str) := do
  let attributes ← getAttributes m e
  match attributes.lookup name with
  | none => pure (-enodata, [])
  | some value =>
    let valueSize := value.length + 1
    if 0 < size then
      if size < valueSize then pure (-erange, [])
      else pure (toInt valueSize, cStr value ++ [0])
    else pure (toInt valueSize, [])

/-- What `prodosfs_listxattr` answers for an entry. -/
def Mount.listxattrAnswer (size : ℕ) (e : EntryPtr) : Call Exn Err (ℤ × Str) := do
  let attributes ← getAttributes m e
  pure (listxattrLoop size (m.order attributes) 0 size [])

/-- A callback that looks for an entry and answers for it, or with the error if there is none. -/
def Mount.answered {α : Type} (filename : Str) (missing : α)
    (answer : EntryPtr → Call Exn Err (ℤ × α)) : Call Exn Err (ℤ × α) := do
  let entry ← getEntry m.volume fuel filename
  match entry with
  | none => do
    let err ← get
    pure (-toError err, missing)
  | some entry => answer entry

/-- A callback looks for the entry under the path that it hands to `GetEntry`, and answers for what
it finds there. If it takes the path for that of a virtual file, it answers for that one. -/
def Mount.LooksUp : Callback → Str → Prop
  | .getattr, path => ∀ st, prodosfsGetattr m fuel path st
      = (m.lookedUp .getattr path).elim
          (pure (0, { st with mode := sIfreg ||| sIrusr ||| sIrgrp, size := fileSizeMax }))
          fun filename => m.answered fuel filename st (m.statAnswer fuel st)
  | .opens, path => prodosfsOpen m fuel path
      = (m.lookedUp .opens path).elim
          (do
            let catalog ← catalog m.volume fuel (prodosFilename m.extensionMode path)
            pure (0, some (.catalog catalog)))
          fun filename => m.answered fuel filename none m.openAnswer
  | .getxattr, path => ∃ filename, m.lookedUp .getxattr path = some filename ∧
      ∀ name size, prodosfsGetxattr m fuel path name size
        = m.answered fuel filename [] (m.getxattrAnswer name size)
  | .listxattr, path => ∃ filename, m.lookedUp .listxattr path = some filename ∧
      ∀ size, prodosfsListxattr m fuel path size
        = m.answered fuel filename [] (m.listxattrAnswer size)

/-- A callback answers for the entry `e`. -/
def Mount.AnswersFor : Callback → Str → EntryPtr → Prop
  | .getattr, path, e => ∀ st err, prodosfsGetattr m fuel path st err = m.statAnswer fuel st e err
  | .opens, path, e => ∀ err, prodosfsOpen m fuel path err = m.openAnswer e err
  | .getxattr, path, e => ∀ name size err,
      prodosfsGetxattr m fuel path name size err = m.getxattrAnswer name size e err
  | .listxattr, path, e => ∀ size err,
      prodosfsListxattr m fuel path size err = m.listxattrAnswer size e err

end

/-- `listxattr` has put the name of an attribute into the buffer, where a zero follows each. -/
def Mount.ListsAttribute (m : Mount) (fuel : ℕ) (path name : Str) : Prop :=
  ∃ (size : ℕ) (err : Err) (r : ℤ) (names : List Str) (err' : Err),
    prodosfsListxattr m fuel path size err = (.ret (r, names.flatMap fun n => n ++ [0]), err') ∧
    0 ≤ r ∧ (∀ n ∈ names, 0 ∉ n) ∧ name ∈ names

/-- `getxattr` puts the value of an attribute into every buffer that has room for it. -/
def Mount.FetchesAttribute (m : Mount) (fuel : ℕ) (path name : Str) : Prop :=
  ∀ err, ∃ value err', ∀ size, value.length < size →
    prodosfsGetxattr m fuel path name size err
      = (.ret (((value.length + 1 : ℕ) : ℤ), cStr value ++ [0]), err')

/-- All callbacks resolve a path to the same entry and answer for it, and the attributes that are
listed for it can be fetched. -/
def Mount.CallbacksAgree (m : Mount) (fuel : ℕ) (path : Str) : Prop :=
  (∃ e, ∀ callback, m.Resolves fuel callback path e ∧ m.AnswersFor fuel callback path e) ∧
    ∀ name, m.ListsAttribute fuel path name → m.FetchesAttribute fuel path name

section
variable {m : Mount} {fuel : ℕ} {path : Str} {e : EntryPtr}

/-- **Every callback looks where the table says.** -/
theorem looksUp (callback : Callback) (path : Str) : m.LooksUp fuel callback path := by
  cases callback with
  | getattr =>
    intro st
    rw [Mount.lookedUp, prodosfsGetattr]
    split
    · rfl
    · rfl
  | opens =>
    by_cases hvirtual : virtualFileMode ≠ .none ∧
        virtualFileId (prodosFilename m.extensionMode path) ≠ .none
    · have hnone : m.lookedUp .opens path = none := if_pos hvirtual
      rw [Mount.LooksUp, hnone, prodosfsOpen, if_pos ⟨hvirtual.1, isVirtual_iff.mp hvirtual⟩]
      rfl
    · have hsome : m.lookedUp .opens path = some (prodosFilename m.extensionMode path) :=
        if_neg hvirtual
      rw [Mount.LooksUp, hsome, prodosfsOpen, if_neg fun h => hvirtual (isVirtual_iff.mpr h.2),
        if_neg hvirtual]
      funext err
      rw [openFile, Call.bind_assoc_apply]
      refine congrFun (congrArg _ (funext fun entry => funext fun err => ?_)) err
      cases entry with
      | none => rfl
      | some e =>
        by_cases hfile : Entry.isFile (m.volume.entry e) = false
        · simp only [Mount.openAnswer, if_pos hfile]
          rfl
        · simp only [Mount.openAnswer, if_neg hfile]
          exact Call.bind_assoc_apply _ _ _ _
  | getxattr => exact ⟨path, rfl, fun _ _ => rfl⟩
  | listxattr => exact ⟨_, rfl, fun _ => rfl⟩

theorem answered_of_finds {α : Type} {filename : Str}
    (hfinds : m.volume.Finds fuel filename e) (missing : α)
    (answer : EntryPtr → Call Exn Err (ℤ × α)) (err : Err) :
    m.answered fuel filename missing answer err = answer e err := by
  obtain ⟨err', hentry⟩ := hfinds err
  obtain rfl := getEntry_some hentry
  exact Call.bind_of_ret hentry

/-- **A callback answers for the entry it finds.** -/
theorem answersFor_of_resolves {callback : Callback} (h : m.Resolves fuel callback path e) :
    m.AnswersFor fuel callback path e := by
  obtain ⟨filename, hfilename, hfinds⟩ := h
  have hlooks := @looksUp m fuel callback path
  cases callback with
  | getattr =>
    intro st err
    rw [hlooks st, hfilename]
    exact answered_of_finds hfinds _ _ err
  | opens =>
    intro err
    rw [Mount.LooksUp, hfilename] at hlooks
    rw [hlooks]
    exact answered_of_finds hfinds _ _ err
  | getxattr =>
    intro name size err
    obtain ⟨_, hsame, heq⟩ := hlooks
    cases hfilename.symm.trans hsame
    rw [heq]
    exact answered_of_finds hfinds _ _ err
  | listxattr =>
    intro size err
    obtain ⟨_, hsame, heq⟩ := hlooks
    cases hfilename.symm.trans hsame
    rw [heq]
    exact answered_of_finds hfinds _ _ err

/-- Whoever answers for an entry leaves the error alone. -/
theorem getxattrAnswer_error (hv : m.volume.Accepted) {name : Str} {size : ℕ} {err err' : Err}
    {r : ℤ × Str} (hanswer : m.getxattrAnswer name size e err = (.ret r, err')) : err' = err := by
  obtain ⟨attributes, t, hget, hret⟩ := Call.bind_eq_ret_iff.mp hanswer
  obtain ⟨attributes', hget', -⟩ :=
    getAttributes_of_described (σ := Err) hv (described_of_getAttributes hv hget)
  rw [hget' err] at hget
  cases hget
  cases hvalue : attributes.lookup name with
  | none =>
    simp only [hvalue] at hret
    cases hret
    rfl
  | some value =>
    simp only [hvalue, Call.ite_apply, Call.pure_apply] at hret
    split at hret
    · split at hret
      · exact (Prod.mk.inj hret).2.symm
      · exact (Prod.mk.inj hret).2.symm
    · exact (Prod.mk.inj hret).2.symm

/-! ### Listed attributes are fetched -/

/-- Names without a zero are read back from a buffer in which a zero follows each. The induction is
on the first list. -/
theorem eq_of_flatMap_zero : ∀ {names names' : List Str}, (∀ n ∈ names, 0 ∉ n) →
    (∀ n ∈ names', 0 ∉ n) →
    (names.flatMap fun n => n ++ [0]) = (names'.flatMap fun n => n ++ [0]) → names = names' := by
  have hfirst : ∀ {n rest : Str}, 0 ∉ n → cStr (n ++ [0] ++ rest) = n := by
    intro n rest hn
    rw [cStr, List.append_assoc, List.takeWhile_append_of_pos]
    · simp
    · intro c hc
      simpa using fun h : c = 0 => hn (h ▸ hc)
  intro names
  induction names with
  | nil =>
    intro names' _ _ heq
    cases names' with
    | nil => rfl
    | cons n' names' => simp at heq
  | cons n names ih =>
    intro names' hnames hnames' heq
    cases names' with
    | nil => simp at heq
    | cons n' names' =>
      rw [List.forall_mem_cons] at hnames hnames'
      rw [List.flatMap_cons, List.flatMap_cons] at heq
      have hn : n = n' := by
        have hcut := congrArg cStr heq
        rwa [hfirst hnames.1, hfirst hnames'.1] at hcut
      subst hn
      rw [ih hnames.2 hnames'.2 (List.append_cancel_left heq)]

/-- What the loop has put into the buffer, if there was room for it. -/
theorem listxattrLoop_snd {size : ℕ} (hsize : 0 < size) :
    ∀ {attributes : Attributes} {length remaining : ℕ} {buffer : Str},
      0 ≤ (listxattrLoop size attributes length remaining buffer).1 →
      (listxattrLoop size attributes length remaining buffer).2
        = buffer ++ (attributes.map Prod.fst).flatMap fun n => n ++ [0] := by
  intro attributes
  induction attributes with
  | nil =>
    intro length remaining buffer _
    simp [listxattrLoop]
  | cons a attributes ih =>
    intro length remaining buffer hr
    rw [listxattrLoop, if_pos hsize] at hr ⊢
    split at hr
    · rename_i hroom
      rw [if_pos hroom, ih hr]
      simp
    · exact absurd hr (by decide : ¬ (0 : ℤ) ≤ -erange)

/-- Nothing is put into a buffer that is not there. -/
theorem listxattrLoop_zero : ∀ {attributes : Attributes} {length remaining : ℕ} {buffer : Str},
    (listxattrLoop 0 attributes length remaining buffer).2 = buffer := by
  intro attributes
  induction attributes with
  | nil =>
    intro length remaining buffer
    rfl
  | cons a attributes ih =>
    intro length remaining buffer
    rw [listxattrLoop, if_neg (lt_irrefl 0)]
    exact ih

/-- **What is listed can be fetched**, if both callbacks look at the same entry. -/
theorem fetches_of_lists (hv : m.volume.Accepted) (hgetxattr : m.Resolves fuel .getxattr path e)
    (hlistxattr : m.Resolves fuel .listxattr path e) {name : Str}
    (hlists : m.ListsAttribute fuel path name) : m.FetchesAttribute fuel path name := by
  obtain ⟨size, err, r, names, err', hret, hr, hnul, hmem⟩ := hlists
  rw [answersFor_of_resolves hlistxattr size err] at hret
  obtain ⟨attributes, err₂, hget, hloop⟩ := Call.bind_eq_ret_iff.mp hret
  obtain ⟨attributes', hget', -, hmodest⟩ :=
    getAttributes_of_described (σ := Err) hv (described_of_getAttributes hv hget)
  rw [hget' err] at hget
  cases hget
  have hpair : listxattrLoop size (m.order attributes) 0 size []
      = (r, names.flatMap fun n => n ++ [0]) := Outcome.ret.inj (Prod.mk.inj hloop).1
  have hnames : names = (m.order attributes).map Prod.fst := by
    rcases Nat.eq_zero_or_pos size with rfl | hsize
    · have hnone : (listxattrLoop 0 (m.order attributes) 0 0 []).2 = [] := listxattrLoop_zero
      rw [hpair, List.flatMap_eq_nil_iff] at hnone
      exact absurd (hnone name hmem) (by simp)
    · have hbuffer := listxattrLoop_snd hsize (by rw [hpair]; exact hr)
      rw [hpair, List.nil_append] at hbuffer
      refine eq_of_flatMap_zero hnul (fun n hn => ?_) hbuffer
      obtain ⟨a, ha, rfl⟩ := List.mem_map.mp hn
      exact (names_of_getAttributes (hget' err)).1 a ((m.order_perm attributes).mem_iff.mp ha)
  have hkey : name ∈ attributes.map Prod.fst := by
    rw [hnames] at hmem
    exact ((m.order_perm attributes).map Prod.fst).mem_iff.mp hmem
  obtain ⟨value, hvalue⟩ : ∃ value, attributes.lookup name = some value := by
    obtain ⟨a, ha, rfl⟩ := List.mem_map.mp hkey
    exact Option.isSome_iff_exists.mp (List.lookup_isSome_iff.mpr ⟨a, ha, beq_self_eq_true a.1⟩)
  have hlength : value.length < 4096 := (hmodest _ (mem_of_lookup hvalue)).2
  intro err
  refine ⟨value, err, fun size hsize => ?_⟩
  rw [answersFor_of_resolves hgetxattr name size err, Mount.getxattrAnswer,
    Call.bind_of_ret (hget' err)]
  simp only [hvalue]
  rw [if_pos (by omega), if_neg (by omega), Call.pure_apply, toInt_of_lt (by omega)]

/-- The attributes of an entry that is known are listed in a buffer that has room for them. -/
theorem lists_of_resolves (hv : m.volume.Accepted)
    (hlistxattr : m.Resolves fuel .listxattr path e) (he : m.volume.Described e) :
    ∀ name ∈ commonNames, m.ListsAttribute fuel path (xattr name) := by
  obtain ⟨attributes, hget, -⟩ := getAttributes_of_described (σ := Err) hv he
  obtain ⟨hnul, hlength, hcommon⟩ := names_of_getAttributes (hget .none)
  have hperm := m.order_perm attributes
  have hnul' : ∀ attr ∈ m.order attributes, 0 ∉ attr.1 := fun attr ha =>
    hnul attr (hperm.mem_iff.mp ha)
  have hsame : namesLength (m.order attributes) = namesLength attributes :=
    (hperm.map _).sum_nat
  intro name hname
  have hmem : xattr name ∈ (m.order attributes).map Prod.fst :=
    (hperm.map Prod.fst).mem_iff.mpr (hcommon name hname)
  obtain ⟨size, hsize⟩ : ∃ size, size = namesLength (m.order attributes) := ⟨_, rfl⟩
  have hpos : 0 < size := by
    cases horder : m.order attributes with
    | nil =>
      rw [horder] at hmem
      cases hmem
    | cons attr attributes =>
      rw [hsize, horder, namesLength_cons]
      omega
  have hbytes : (listxattrLoop size (m.order attributes) 0 size []).2
      = nameBytes (m.order attributes) := listxattrLoop_of_le hpos _ hsize.ge
  have hcount : (listxattrLoop size (m.order attributes) 0 size []).1 = namesLength attributes := by
    have hloops := congrArg Prod.fst (@listxattrStores_eq size _ hnul' 0 size [])
    rw [← hloops, listxattrStores_of_le hpos _ hsize.ge, Nat.zero_add, hsame, toInt_of_lt hlength]
  refine ⟨size, .none, namesLength attributes, (m.order attributes).map Prod.fst, .none, ?_,
    Int.natCast_nonneg _, ?_, hmem⟩
  · rw [answersFor_of_resolves hlistxattr size .none, Mount.listxattrAnswer,
      Call.bind_of_ret (hget .none), Call.pure_apply, List.flatMap_map, ← hcount]
    exact congrArg (fun bytes => (Outcome.ret (_, bytes), Err.none)) hbytes
  · intro n hn
    obtain ⟨attr, hattr, rfl⟩ := List.mem_map.mp hn
    exact hnul' attr hattr

/-! ### Where the callbacks agree -/

/-- Three callbacks look under the path without the suffix, and `getxattr` under the path. -/
theorem callbacksAgree_iff_finds (hv : m.volume.Accepted) : m.CallbacksAgree fuel path ↔
    virtualFileId path ≠ .catalog ∧
      virtualFileId (prodosFilename m.extensionMode path) ≠ .catalog ∧
      ∃ e, m.volume.Finds fuel path e ∧
        m.volume.Finds fuel (prodosFilename m.extensionMode path) e := by
  constructor
  · rintro ⟨⟨e, hagree⟩, -⟩
    obtain ⟨_, hgetattr, -⟩ := (hagree .getattr).1
    obtain ⟨_, hopens, -⟩ := (hagree .opens).1
    obtain ⟨_, hgetxattr, hwhole⟩ := (hagree .getxattr).1
    obtain ⟨_, hlistxattr, hstripped⟩ := (hagree .listxattr).1
    cases hgetxattr
    cases hlistxattr
    refine ⟨fun hid => ?_, fun hid => ?_, e, hwhole, hstripped⟩
    · rw [Mount.lookedUp, if_pos (isVirtual_iff.mpr hid)] at hgetattr
      cases hgetattr
    · rw [Mount.lookedUp, if_pos (isVirtual_iff.mpr hid)] at hopens
      cases hopens
  · rintro ⟨hpath, hfilename, e, hwhole, hstripped⟩
    have hgetxattr : m.Resolves fuel .getxattr path e := ⟨_, rfl, hwhole⟩
    have hlistxattr : m.Resolves fuel .listxattr path e := ⟨_, rfl, hstripped⟩
    have hresolves : ∀ callback, m.Resolves fuel callback path e := by
      intro callback
      cases callback with
      | getattr => exact ⟨_, if_neg fun h => hpath (isVirtual_iff.mp h), hstripped⟩
      | opens => exact ⟨_, if_neg fun h => hfilename (isVirtual_iff.mp h), hstripped⟩
      | getxattr => exact hgetxattr
      | listxattr => exact hlistxattr
    exact ⟨⟨e, fun callback => ⟨hresolves callback, answersFor_of_resolves (hresolves callback)⟩⟩,
      fun name => fetches_of_lists hv hgetxattr hlistxattr⟩

variable {es : List EntryPtr} {name name' : Str}

theorem finds_iff_resolve {v : Volume} (hv : v.Accepted)
    (hit : Iterates v fuel (.opened (.image Volume.root)) es) (hlength : es.length + 1 ≤ fuel)
    (hslash : 47 ∉ name) : v.Finds fuel (joinPath [name]) e ↔ v.resolve es name = some e := by
  have hentry := getEntry_root hv hit hlength hslash
  cases hresolve : v.resolve es name with
  | none =>
    refine iff_of_false (fun hfinds => ?_) (by simp)
    obtain ⟨err', hfound⟩ := hfinds .none
    rw [hentry, hresolve] at hfound
    cases hfound
  | some e' =>
    constructor
    · intro hfinds
      obtain ⟨err', hfound⟩ := hfinds .none
      rw [hentry, hresolve] at hfound
      cases hfound
      rfl
    · rintro heq err
      cases heq
      refine ⟨err, ?_⟩
      rw [hentry, hresolve]

theorem virtualFileId_ne_iff (hslash : 47 ∉ name) :
    virtualFileId (joinPath [name]) ≠ .catalog ↔ name ≠ ascii ".CATALOG" := by
  rw [virtualFileId_joinPath hslash]
  by_cases hname : name = ascii ".CATALOG"
  · simp [hname]
  · simp [hname]

/-- The names of an entry have the same length. -/
theorem length_eq_of_nameMatches {entry : Block} (hnul : 0 ∉ name) (hnul' : 0 ∉ name')
    (h : Entry.nameMatches entry name) (h' : Entry.nameMatches entry name') :
    name.length = name'.length := by
  rw [Entry.nameMatches, strcaseeq, beq_iff_eq, cStr_of_not_mem hnul] at h
  rw [Entry.nameMatches, strcaseeq, beq_iff_eq, cStr_of_not_mem hnul'] at h'
  simpa using congrArg List.length (h.trans h'.symm)

/-- An entry that is listed without a suffix is found under its name, or another one before it. -/
theorem exists_resolve {v : Volume} (he : e ∈ es)
    (hname : cStr (Entry.fileName (v.entry e)) = name) : ∃ e', v.resolve es name = some e' := by
  by_cases hempty : name = []
  · exact ⟨_, if_pos hempty⟩
  · rw [Volume.resolve, if_neg hempty]
    refine Option.isSome_iff_exists.mp (List.find?_isSome.mpr ⟨e, he, ?_⟩)
    have hnul : 0 ∉ name := hname ▸ not_mem_cStr _
    rw [Entry.nameMatches, strcaseeq, cStr_of_not_mem hnul, hname, beq_self_eq_true]

/-- What is listed without a suffix. -/
theorem listedName_eq (hcolon : m.extensionMode = .off ∨ 58 ∉ m.listedName e) :
    m.listedName e = cStr (Entry.fileName (m.volume.entry e)) := by
  rw [Mount.listedName, exportedFilename] at hcolon ⊢
  split at hcolon
  · rename_i hsuffix
    have hmem := hcolon.resolve_left (by rw [hsuffix.1]; decide)
    rw [if_pos hsuffix]
    rw [cStr, List.append_assoc, List.takeWhile_append] at hmem ⊢
    split at hmem
    · exact absurd (List.mem_append_right _ (List.mem_cons_self ..)) hmem
    · rw [if_neg ‹_›, cStr]
  · rw [if_neg ‹_›]

/-- An entry with a valid name is listed under that name, with a suffix if it is a file, which comes
off again. -/
theorem listedName_of_isValidName (hvalid : isValidName (Entry.fileName (m.volume.entry e))) :
    47 ∉ m.listedName e ∧ m.listedName e ≠ ascii ".CATALOG" ∧
      (58 ∈ m.listedName e ↔ m.extensionMode = .on ∧ Entry.isFile (m.volume.entry e)) ∧
      prodosFilename m.extensionMode (m.listedName e) = Entry.fileName (m.volume.entry e) := by
  have hname : ∀ c, (isalnum c || c == 46) = false → c ∉ Entry.fileName (m.volume.entry e) :=
    fun _ => not_mem_of_isValidName hvalid
  have hnul := hname 0 (by decide)
  have hslash := hname 47 (by decide)
  have hcolon := hname 58 (by decide)
  obtain ⟨hnul', hslash', hcolon'⟩ :=
    not_mem_name_getFileTypeInfo (Entry.fileType (m.volume.entry e))
  rw [Mount.listedName, exportedFilename]
  by_cases hsuffix : m.extensionMode = .on ∧ Entry.isFile (m.volume.entry e)
  · have happend : ∀ {c : UInt8} {name suffix : Str}, c ∉ name → c ≠ 58 → c ∉ suffix →
        c ∉ name ++ ascii ":" ++ suffix := by
      intro c name suffix h hc h'
      have hmid : ascii ":" = [58] := rfl
      simp [hmid, h, hc, h']
    have hmem : (58 : UInt8) ∈ Entry.fileName (m.volume.entry e) ++ ascii ":" ++
        (getFileTypeInfo (Entry.fileType (m.volume.entry e))).name :=
      List.mem_append_left _ (List.mem_append_right _ (List.mem_cons_self ..))
    rw [if_pos hsuffix, cStr_of_not_mem (happend hnul (by decide) hnul'), hsuffix.1]
    exact ⟨happend hslash (by decide) hslash', fun h => absurd (h ▸ hmem) (by decide),
      iff_of_true hmem ⟨rfl, hsuffix.2⟩, prodosFilename_append hcolon'⟩
  · rw [if_neg hsuffix, cStr_of_not_mem hnul]
    refine ⟨hslash, fun h => ?_, iff_of_false hcolon hsuffix, if_neg fun h => hcolon h.2⟩
    rw [h] at hvalid
    exact absurd hvalid (by decide)

/-- Only the root directory is found both with a suffix and without it, since no entry has names of
two lengths. -/
theorem eq_root_of_resolve {v : Volume} {e' : EntryPtr} (hnul : 0 ∉ name) (hcolon : 58 ∈ name)
    (hwhole : v.resolve es name = some e')
    (hstripped : v.resolve es (prodosFilename .on name) = some e') :
    prodosFilename .on name = [] ∧ e' = ⟨.image Volume.root, 0⟩ := by
  by_cases hempty : prodosFilename .on name = []
  · rw [Volume.resolve, if_pos hempty] at hstripped
    cases hstripped
    exact ⟨hempty, rfl⟩
  · rw [Volume.resolve, if_neg hempty] at hstripped
    rw [Volume.resolve, if_neg (List.ne_nil_of_mem hcolon)] at hwhole
    have hshorter := length_prodosFilename_lt hcolon
    have hequal := length_eq_of_nameMatches hnul (not_mem_prodosFilename .on hnul)
      (by simpa using List.find?_some hwhole) (by simpa using List.find?_some hstripped)
    omega

/-- The listed names for which the callbacks agree are those without a suffix, except the one of the
virtual file. -/
theorem callbacksAgree_iff_listed (hv : m.volume.Accepted) (hlist : m.Lists fuel es) (he : e ∈ es) :
    m.CallbacksAgree fuel (joinPath [m.listedName e]) ↔
      if 47 ∈ m.listedName e then
        virtualFileId (joinPath [m.listedName e]) ≠ .catalog ∧
          virtualFileId (prodosFilename m.extensionMode (joinPath [m.listedName e])) ≠ .catalog ∧
          ∃ e', m.volume.Finds fuel (joinPath [m.listedName e]) e' ∧
            m.volume.Finds fuel (prodosFilename m.extensionMode (joinPath [m.listedName e])) e'
      else
        m.listedName e ≠ ascii ".CATALOG" ∧
          (m.extensionMode = .off ∨ 58 ∉ m.listedName e ∨
            prodosFilename m.extensionMode (m.listedName e) = [] ∧
              m.volume.resolve es (m.listedName e) = some ⟨.image Volume.root, 0⟩) := by
  obtain ⟨hit, hlength⟩ := hlist.iterates hv
  by_cases hslash : 47 ∈ m.listedName e
  · rw [if_pos hslash]
    exact callbacksAgree_iff_finds hv
  have hstripped := not_mem_prodosFilename m.extensionMode hslash
  have hnul : 0 ∉ m.listedName e := not_mem_cStr _
  rw [if_neg hslash, callbacksAgree_iff_finds hv, prodosFilename_joinPath,
    virtualFileId_ne_iff hslash, virtualFileId_ne_iff hstripped]
  simp only [finds_iff_resolve hv hit hlength hslash, finds_iff_resolve hv hit hlength hstripped]
  constructor
  · rintro ⟨hname, -, e', hwhole, hsame⟩
    refine ⟨hname, ?_⟩
    by_contra hsuffix
    rw [not_or, not_or, not_not] at hsuffix
    obtain ⟨hmode, hcolon, hroot⟩ := hsuffix
    have hon : m.extensionMode = .on := by
      cases h : m.extensionMode with
      | off => exact absurd h hmode
      | on => rfl
    rw [hon] at hsame hroot
    obtain ⟨hempty, rfl⟩ := eq_root_of_resolve hnul hcolon hwhole hsame
    exact hroot ⟨hempty, hwhole⟩
  · rintro ⟨hname, hcolon⟩
    rw [← or_assoc] at hcolon
    rcases hcolon with hcolon | ⟨hempty, hroot⟩
    · have hsame : prodosFilename m.extensionMode (m.listedName e) = m.listedName e := by
        rw [prodosFilename, if_neg]
        rintro ⟨hon, hmem⟩
        rcases hcolon with hoff | hcolon
        · rw [hoff] at hon
          cases hon
        · exact hcolon hmem
      obtain ⟨e', hresolve⟩ := exists_resolve he (listedName_eq hcolon).symm
      rw [hsame]
      exact ⟨hname, hname, e', hresolve, hresolve⟩
    · rw [hempty]
      exact ⟨hname, by decide, _, hroot, rfl⟩

/-- A file that is listed with a suffix is found without it by three callbacks, and `getxattr` finds
nothing, since no name on a well-formed volume has a colon in it. -/
theorem getxattr_of_suffix (hv : m.volume.Accepted) (hwf : m.volume.WellFormed)
    (hroot : DirectoryAt m.volume (.image Volume.root) es)
    (hit : Iterates m.volume fuel (.opened (.image Volume.root)) es)
    (hlength : es.length + 1 ≤ fuel) (he : e ∈ es) (hmode : m.extensionMode = .on)
    (hfile : Entry.isFile (m.volume.entry e)) :
    (∃ e', ∀ callback ≠ .getxattr, m.Resolves fuel callback (joinPath [m.listedName e]) e' ∧
      m.AnswersFor fuel callback (joinPath [m.listedName e]) e') ∧
    ∀ name size err, prodosfsGetxattr m fuel (joinPath [m.listedName e]) name size err
      = (.ret (-2, []), .fileNotFound) := by
  have hvalid := hwf.validName .root hroot
  obtain ⟨hslash, hcatalog, hcolon, hstripped⟩ := listedName_of_isValidName (m := m) (hvalid e he)
  have hmem : 58 ∈ m.listedName e := hcolon.mpr ⟨hmode, hfile⟩
  constructor
  · have hname : ∀ c, (isalnum c || c == 46) = false → c ∉ Entry.fileName (m.volume.entry e) :=
      fun _ => not_mem_of_isValidName (hvalid e he)
    have hfilename := congrArg (fun name => joinPath [name]) hstripped
    rw [← prodosFilename_joinPath] at hfilename
    obtain ⟨e', hresolve⟩ := exists_resolve he (cStr_of_not_mem (hname 0 (by decide)))
    have hfinds : m.volume.Finds fuel
        (prodosFilename m.extensionMode (joinPath [m.listedName e])) e' := by
      rw [hfilename]
      exact (finds_iff_resolve hv hit hlength (hname 47 (by decide))).mpr hresolve
    have hresolves : ∀ callback ≠ .getxattr,
        m.Resolves fuel callback (joinPath [m.listedName e]) e' := by
      intro callback hother
      cases callback with
      | getattr =>
        exact ⟨_, if_neg fun h => (virtualFileId_ne_iff hslash).mpr hcatalog (isVirtual_iff.mp h),
          hfinds⟩
      | opens =>
        refine ⟨_, if_neg fun h => ?_, hfinds⟩
        rw [isVirtual_iff, hfilename] at h
        exact (virtualFileId_ne_iff (hname 47 (by decide))).mpr (fun h => absurd (hvalid e he)
          (by rw [h]; decide)) h
      | getxattr => exact absurd rfl hother
      | listxattr => exact ⟨_, rfl, hfinds⟩
    exact ⟨e', fun callback hother =>
      ⟨hresolves callback hother, answersFor_of_resolves (hresolves callback hother)⟩⟩
  · have hnone : m.volume.resolve es (m.listedName e) = none := by
      rw [Volume.resolve, if_neg (List.ne_nil_of_mem hmem), List.find?_eq_none]
      intro e' he' hmatch
      have hnul : 0 ∉ m.listedName e := not_mem_cStr _
      rw [nameMatches_eq_sameName (hvalid e' he') hnul] at hmatch
      exact not_mem_of_isValidName (hvalid e' he') (by decide)
        (mem_of_sameName (by decide) hmatch hmem)
    intro name size err
    have hentry := getEntry_root hv hit hlength hslash err
    rw [hnone] at hentry
    exact Call.bind_of_ret hentry

/-- **The listed names for which the callbacks agree** are those without a suffix, except the one of
the virtual file. In a sound volume, they are the ones of its directories, or all of them if no
suffixes are listed; for the others `getxattr` answers that there is no such file, whatever it is
asked for. -/
theorem callbacks_agree_iff (hv : m.volume.Accepted) (hlist : m.Lists fuel es) (he : e ∈ es) :
    (∀ callback path, m.LooksUp fuel callback path) ∧
    (m.CallbacksAgree fuel (joinPath [m.listedName e]) ↔
      if 47 ∈ m.listedName e then
        virtualFileId (joinPath [m.listedName e]) ≠ .catalog ∧
          virtualFileId (prodosFilename m.extensionMode (joinPath [m.listedName e])) ≠ .catalog ∧
          ∃ e', m.volume.Finds fuel (joinPath [m.listedName e]) e' ∧
            m.volume.Finds fuel (prodosFilename m.extensionMode (joinPath [m.listedName e])) e'
      else
        m.listedName e ≠ ascii ".CATALOG" ∧
          (m.extensionMode = .off ∨ 58 ∉ m.listedName e ∨
            prodosFilename m.extensionMode (m.listedName e) = [] ∧
              m.volume.resolve es (m.listedName e) = some ⟨.image Volume.root, 0⟩)) ∧
    (m.volume.WellFormed → 14 * 65536 ≤ fuel →
      (m.CallbacksAgree fuel (joinPath [m.listedName e]) ↔
        m.extensionMode = .off ∨ Entry.isFile (m.volume.entry e) = false) ∧
      (m.extensionMode = .on → Entry.isFile (m.volume.entry e) →
        (∃ e', ∀ callback ≠ .getxattr, m.Resolves fuel callback (joinPath [m.listedName e]) e' ∧
          m.AnswersFor fuel callback (joinPath [m.listedName e]) e') ∧
        ∀ name size err, prodosfsGetxattr m fuel (joinPath [m.listedName e]) name size err
          = (.ret (-2, []), .fileNotFound))) := by
  have hlisted := callbacksAgree_iff_listed hv hlist he
  refine ⟨looksUp, hlisted, fun hwf hfuel => ?_⟩
  obtain ⟨hit, hlength⟩ := hlist.iterates hv
  obtain ⟨es', hkey⟩ := hwf.directory .root
  obtain rfl := hit.unique (hkey.iterates hfuel)
  refine ⟨?_, getxattr_of_suffix hv hwf hkey hit hlength he⟩
  have hvalid := hwf.validName .root hkey e he
  have hnonempty : Entry.fileName (m.volume.entry e) ≠ [] :=
    List.ne_nil_of_length_pos (isValidName_iff.mp hvalid).1
  obtain ⟨hslash, hcatalog, hcolon, hstripped⟩ := listedName_of_isValidName (m := m) hvalid
  rw [hlisted, if_neg hslash, hstripped]
  constructor
  · rintro ⟨-, hoff | hno | ⟨hempty, -⟩⟩
    · exact Or.inl hoff
    · cases hmode : m.extensionMode with
      | off => exact Or.inl rfl
      | on =>
        refine Or.inr (Bool.eq_false_of_not_eq_true fun hfile => ?_)
        exact hno (hcolon.mpr ⟨hmode, hfile⟩)
    · exact absurd hempty hnonempty
  · rintro (hoff | hfile)
    · exact ⟨hcatalog, Or.inl hoff⟩
    · refine ⟨hcatalog, Or.inr (Or.inl fun hmem => ?_)⟩
      rw [(hcolon.mp hmem).2] at hfile
      cases hfile

end

/-- The callbacks agree on the directory of the small volume, which has no colon in its name and is
no file. They do not on its text file: `getxattr` does not find it. -/
theorem callbacks_agree_iff_small :
    (smallMount .on).CallbacksAgree 65536 (joinPath [ascii "D"]) ∧
      (smallMount .on).CallbacksAgree (14 * 65536) (joinPath [ascii "D"]) ∧
      ∀ name size err,
        prodosfsGetxattr (smallMount .on) (14 * 65536) (joinPath [ascii "T:TXT"]) name size err
          = (.ret (-2, []), .fileNotFound) := by
  have hname : (smallMount .on).listedName ⟨.image 1536, 12⟩ = ascii "D" := by decide
  have htext : (smallMount .on).listedName textFile = ascii "T:TXT" := by decide
  have hmem : (⟨.image 1536, 12⟩ : EntryPtr) ∈ [textFile, ⟨.image 1536, 12⟩] := by decide
  have hlists : (smallMount .on).Lists (14 * 65536) [textFile, ⟨.image 1536, 12⟩] :=
    Mount.lists_of_iterates accepted_small (root_small.iterates le_rfl) (by decide)
  refine ⟨?_, ?_, ?_⟩
  · have hiff := (callbacks_agree_iff (m := smallMount .on) accepted_small lists_small hmem).2.1
    rw [hname, if_neg (by decide)] at hiff
    exact hiff.mpr ⟨by decide, Or.inr (Or.inl (by decide))⟩
  · have hiff := ((callbacks_agree_iff (m := smallMount .on) accepted_small hlists hmem).2.2
      wellFormed_small le_rfl).1
    rw [hname] at hiff
    exact hiff.mpr (Or.inr (by decide))
  · have hfails := ((callbacks_agree_iff (m := smallMount .on) (e := textFile) accepted_small hlists
      (by decide)).2.2 wellFormed_small le_rfl).2 rfl (by decide)
    rw [htext] at hfails
    exact hfails.2

/-- The text file is found without its suffix, and its attributes are looked for with it. So
`listxattr` lists them, and `getxattr` answers that there is no such file. -/
theorem not_callbacks_agree_small :
    (∀ name size err,
      prodosfsGetxattr (smallMount .on) 65536 (joinPath [ascii "T:TXT"]) name size err
        = (.ret (-2, []), .fileNotFound)) ∧
    (smallMount .on).ListsAttribute 65536 (joinPath [ascii "T:TXT"]) (xattr "access") ∧
    ¬ (smallMount .on).FetchesAttribute 65536 (joinPath [ascii "T:TXT"]) (xattr "access") ∧
    (¬ ∃ e, ∀ callback,
      (smallMount .on).AnswersFor 65536 callback (joinPath [ascii "T:TXT"]) e) ∧
    ¬ ∀ (m : Mount) (fuel : ℕ) (es : List EntryPtr), m.volume.Accepted → m.Lists fuel es →
      ∀ e ∈ es, 47 ∉ m.listedName e → m.CallbacksAgree fuel (joinPath [m.listedName e]) := by
  have hname : (smallMount .on).listedName textFile = ascii "T:TXT" := by decide
  have hfilename : prodosFilename .on (joinPath [ascii "T:TXT"]) = joinPath [ascii "T"] := by decide
  obtain ⟨hit, hlength⟩ := lists_small.iterates accepted_small
  obtain ⟨hanswers, hfails⟩ := getxattr_of_suffix (m := smallMount .on) (e := textFile)
    accepted_small wellFormed_small root_small hit hlength (by decide) rfl (by decide)
  rw [hname] at hfails hanswers
  have hfinds : smallVolume.Finds 65536 (joinPath [ascii "T"]) textFile :=
    (finds_iff_resolve accepted_small hit hlength (by decide)).mpr (by decide)
  have hlists := @lists_of_resolves (smallMount .on) _ (joinPath [ascii "T:TXT"]) _
    accepted_small ⟨_, rfl, hfilename ▸ hfinds⟩ (Or.inl (by decide)) "access" (by decide)
  have hunfetched : ¬ (smallMount .on).FetchesAttribute 65536 (joinPath [ascii "T:TXT"])
      (xattr "access") := by
    intro hfetches
    obtain ⟨value, err', hfetch⟩ := hfetches .none
    have hret := (hfails _ _ _).symm.trans (hfetch _ (Nat.lt_succ_self _))
    have hneg : (-2 : ℤ) = (value.length + 1 : ℕ) :=
      congrArg Prod.fst (Outcome.ret.inj (Prod.mk.inj hret).1)
    omega
  refine ⟨hfails, hlists, hunfetched, ?_, fun hclaim => ?_⟩
  · rintro ⟨e, hsame⟩
    have herr := getxattrAnswer_error accepted_small
      ((hsame .getxattr [] 0 .none).symm.trans (hfails [] 0 .none))
    cases herr
  · have hagree := hclaim (smallMount .on) 65536 _ accepted_small lists_small textFile (by decide)
      (by rw [hname]; decide)
    rw [hname] at hagree
    exact hunfetched (hagree.2 _ hlists)

end Prodosfs
