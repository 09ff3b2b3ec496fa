import Prodosfs.Listing
import Prodosfs.General.NameTree
import Mathlib.Data.List.Find
import Mathlib.Data.List.Perm.Subperm
import Mathlib.Data.List.TakeWhile

/-!
# Looking up a path

`GetEntry` splits a path into components and walks over directories with one handle: it takes
entry after entry, and when one matches the component at hand it opens the directory the entry
stands for in the same handle, and goes on with the next component.

A volume with sound directories is a tree of names, and the walk is the lookup in that tree — of
the components the splitter makes, whatever they are.

## The splitter

The length it cuts a component to is the position of the next slash less one, which is right when
the component starts at position one and not otherwise. A component that is neither the first nor
the last reaches beyond its slash.

## Main definitions

* `splitPath`, `getEntry`
* `Volume.WellFormed` — every directory that can be reached is sound
* `Volume.tree` — the names in a volume

## Main results

* `getEntry_eq_lookup` — `GetEntry` is the lookup in the tree
-/

namespace Prodosfs

/-! ### Paths -/

/-- `find`, for a character. -/
def findFrom (s : Str) (c : UInt8) (start : ℕ) : Option ℕ :=
  ((s.drop start).idxOf? c).map (· + start)

/-- `substr` -/
def substr (s : Str) (start count : ℕ) : Str := (s.drop start).take count

/-- The loop of `S_SplitPath`, with a bound on the number of slashes. -/
def splitLoop (pathname : Str) : ℕ → ℕ → List Str
  | 0, _ => []
  | fuel + 1, start =>
    match findFrom pathname 47 start with
    | some pos => substr pathname start (pos - 1) :: splitLoop pathname fuel (pos + 1)
    | none => [substr pathname start pathname.length]

/-- `S_SplitPath` -/
def splitPath (pathname : Str) : List Str :=
  splitLoop pathname (pathname.length + 1) (if pathname.getD 0 0 = 47 then 1 else 0)

/-! ### The walk -/

/-- The loop of `GetEntry`, with a bound on the number of rounds and one for `NextEntry`. -/
def getEntryLoop (v : Volume) (bound : ℕ) :
    ℕ → Option EntryPtr → List Str → Call Exn (DirectoryHandle × Err) (Option EntryPtr)
  | 0, _, _ => Call.timeout
  | rounds + 1, some entry, name :: path =>
    if Entry.nameMatches (v.entry entry) name then
      if path = [] then pure (some entry)
      else if Entry.isDirectory (v.entry entry) = false then do
        modify fun s => (s.1, Err.directoryNotFound)
        pure none
      else do
        let keyBlock ← v.readBlock (Entry.keyPointer (v.entry entry))
        DirectoryHandle.openBlock v keyBlock
        let entry ← DirectoryHandle.nextEntry v bound
        getEntryLoop v bound rounds entry path
    else do
      let entry ← DirectoryHandle.nextEntry v bound
      getEntryLoop v bound rounds entry (name :: path)
  | _ + 1, _, _ => do
    modify fun s => (s.1, Err.fileNotFound)
    pure none

/-- `GetEntry` -/
def getEntry (v : Volume) (fuel : ℕ) (pathname : Str) : Call Exn Err (Option EntryPtr) :=
  if pathname = ascii "/" then pure (some ⟨.image Volume.root, 0⟩)
  else do
    let (entry, _) ← Call.withLocal ⟨none, none, 1, 0⟩ (do
      DirectoryHandle.openBlock v (.image Volume.root)
      let entry ← DirectoryHandle.nextEntry v fuel
      getEntryLoop v fuel fuel entry (splitPath pathname))
    pure entry

/-! ### Sound directories -/

/-- A directory key block that lists `es`, and whose header promises that many. -/
structure DirectoryAt (v : Volume) (key : BlockPtr) (es : List EntryPtr) : Prop where
  isKeyBlock : v.IsKeyBlock key
  chain : ∃ rest, BlockChain v key rest ∧ activeSlots v key rest = es
  count : fileCount (v.headerOf key) = es.length

/-- The key block of the directory an entry stands for. -/
def Volume.keyBlock (v : Volume) (e : EntryPtr) : BlockPtr :=
  .image (512 * Entry.keyPointer (v.entry e))

/-- The directories that can be reached from the root. -/
inductive Volume.Reachable (v : Volume) : BlockPtr → Prop
  | root : v.Reachable (.image Volume.root)
  | child {key : BlockPtr} {es : List EntryPtr} {e : EntryPtr} (head : v.Reachable key)
      (hkey : DirectoryAt v key es) (hmem : e ∈ es) (hdir : Entry.isDirectory (v.entry e)) :
      v.Reachable (v.keyBlock e)

/-- Every directory that can be reached is sound: it has valid names, and the key pointers of its
subdirectories are in range. -/
structure Volume.WellFormed (v : Volume) : Prop where
  directory : ∀ {key : BlockPtr}, v.Reachable key → ∃ es, DirectoryAt v key es
  validName : ∀ {key : BlockPtr} {es : List EntryPtr}, v.Reachable key → DirectoryAt v key es →
    ∀ e ∈ es, isValidName (Entry.fileName (v.entry e))
  keyPointer : ∀ {key : BlockPtr} {es : List EntryPtr}, v.Reachable key → DirectoryAt v key es →
    ∀ e ∈ es, Entry.isDirectory (v.entry e) →
      Entry.keyPointer (v.entry e) < v.disk.numBlocks

/-- Equality up to the case of ASCII letters. -/
def sameName (a b : Str) : Bool := a.map tolower == b.map tolower

/-- What is looked for in a path is in both of two names, or in neither. -/
theorem mem_of_sameName {d : UInt8} (hd : d = 0 ∨ d = 47 ∨ d = 58) {a b : Str} (h : sameName a b)
    (ha : d ∈ a) : d ∈ b := by
  have hmem : tolower d ∈ b.map tolower := by
    rw [← beq_iff_eq.mp h]
    exact List.mem_map_of_mem ha
  obtain ⟨c, hc, hsame⟩ := List.mem_map.mp hmem
  have hlower : tolower d = d := (tolower_eq_iff hd d).mpr rfl
  rw [hlower, tolower_eq_iff hd] at hsame
  exact hsame ▸ hc

open Classical in
/-- What a directory lists, if it is sound. -/
noncomputable def Volume.entries (v : Volume) (key : BlockPtr) : List EntryPtr :=
  if h : ∃ es, DirectoryAt v key es then h.choose else []

/-- The names in a volume. -/
noncomputable def Volume.tree (v : Volume) : NameTree BlockPtr EntryPtr Str where
  entries := v.entries
  named e name := sameName name (Entry.fileName (v.entry e))
  child e := if Entry.isDirectory (v.entry e) then some (v.keyBlock e) else none

section
variable {v : Volume} {key : BlockPtr} {es es' : List EntryPtr}

theorem DirectoryAt.unique (h : DirectoryAt v key es) (h' : DirectoryAt v key es') : es = es' := by
  obtain ⟨rest, hc, rfl⟩ := h.chain
  obtain ⟨rest', hc', rfl⟩ := h'.chain
  rw [hc.linked.unique hc'.linked]

theorem DirectoryAt.entries_eq (h : DirectoryAt v key es) : v.entries key = es := by
  have hex : ∃ es, DirectoryAt v key es := ⟨es, h⟩
  rw [Volume.entries, dif_pos hex]
  exact hex.choose_spec.unique h

/-- A chain of blocks is never longer than there are block numbers. -/
theorem length_lt_of_linked {rest : List BlockPtr} (hlinked : Linked v.nextBlock key rest) :
    rest.length < 65536 := by
  have hsub : rest ⊆ (List.range' 1 65535).map Volume.blockPtr := by
    intro b hb
    obtain ⟨c, hnext⟩ := hlinked.exists_next_of_mem hb
    have hlt : v.nextPointer c < 65536 := leRead16_lt _
    rw [Volume.nextBlock] at hnext
    by_cases h0 : v.nextPointer c = 0
    · rw [if_pos h0] at hnext
      cases hnext
    · rw [if_neg h0] at hnext
      cases hnext
      exact List.mem_map_of_mem (List.mem_range'_1.mpr (by omega))
  have hlen := ((List.nodup_cons.mp hlinked.nodup).2.subperm hsub).length_le
  rw [List.length_map, List.length_range'] at hlen
  omega

/-- A freshly opened sound directory. -/
theorem DirectoryAt.remaining (h : DirectoryAt v key es) {fuel : ℕ} (hfuel : 14 * 65536 ≤ fuel) :
    Remaining v fuel key (.opened key) es := by
  obtain ⟨rest, hc, rfl⟩ := h.chain
  have hlen := length_lt_of_linked hc.linked
  exact hc.remaining (by omega)

theorem DirectoryAt.iterates (h : DirectoryAt v key es) {fuel : ℕ} (hfuel : 14 * 65536 ≤ fuel) :
    Iterates v fuel (.opened key) es :=
  (h.remaining hfuel).iterates (by rw [h.count]; exact Nat.zero_add _)

theorem DirectoryAt.length_lt (h : DirectoryAt v key es) : es.length < 65536 := by
  rw [← h.count]
  exact fileCount_lt _

/-! ### Matching names -/

theorem cStr_of_not_mem {s : Str} (h : 0 ∉ s) : cStr s = s := by
  rw [cStr]
  refine List.takeWhile_eq_self_iff.mpr fun c hc => ?_
  simpa using fun h0 : c = 0 => h (h0 ▸ hc)

theorem not_mem_cStr (s : Str) : 0 ∉ cStr s := fun h => by
  simpa using List.mem_takeWhile_imp h

/-- A valid name consists of letters, digits and periods. -/
theorem not_mem_of_isValidName {s : Str} (h : isValidName s) {c : UInt8}
    (hc : (isalnum c || c == 46) = false) : c ∉ s := by
  obtain ⟨-, -, halpha, hrest⟩ := isValidName_iff.mp h
  cases s with
  | nil => exact List.not_mem_nil
  | cons d s =>
    intro hmem
    rcases List.mem_cons.mp hmem with rfl | hs
    · have halpha' : isalpha c = true := halpha
      simp [isalnum, halpha'] at hc
    · exact Bool.false_ne_true (hc.symm.trans (hrest c hs))

/-- Without NUL bytes, `strcasecmp` compares whole names. -/
theorem nameMatches_eq_sameName {entry : Block} {name : Str}
    (hvalid : isValidName (Entry.fileName entry)) (hnul : 0 ∉ name) :
    Entry.nameMatches entry name = sameName name (Entry.fileName entry) := by
  rw [Entry.nameMatches, strcaseeq, cStr_of_not_mem hnul,
    cStr_of_not_mem (not_mem_of_isValidName hvalid (by decide)), sameName]

theorem not_mem_substr {s : Str} {c : UInt8} (h : c ∉ s) (start count : ℕ) :
    c ∉ substr s start count := fun hc =>
  h (List.mem_of_mem_drop (List.mem_of_mem_take hc))

theorem not_mem_splitLoop {s : Str} {c : UInt8} (h : c ∉ s) (fuel : ℕ) :
    ∀ start, ∀ name ∈ splitLoop s fuel start, c ∉ name := by
  induction fuel with
  | zero =>
    intro start name hname
    cases hname
  | succ fuel ih =>
    intro start name hname
    rw [splitLoop] at hname
    split at hname
    · rcases List.mem_cons.mp hname with rfl | hname
      · exact not_mem_substr h _ _
      · exact ih _ name hname
    · obtain rfl := List.mem_singleton.mp hname
      exact not_mem_substr h _ _

theorem length_splitLoop_le (s : Str) : ∀ fuel start, (splitLoop s fuel start).length ≤ fuel := by
  intro fuel
  induction fuel with
  | zero => exact fun _ => le_rfl
  | succ fuel ih =>
    intro start
    rw [splitLoop]
    split
    · exact Nat.succ_le_succ (ih _)
    · exact Nat.succ_le_succ (Nat.zero_le fuel)

theorem length_splitPath_le (s : Str) : (splitPath s).length ≤ s.length + 1 :=
  length_splitLoop_le s _ _

theorem splitPath_ne_nil (s : Str) : splitPath s ≠ [] := by
  rw [splitPath, splitLoop]
  split <;> simp

/-! ### The walk is the lookup -/

/-- How `GetEntry` reports the outcome of a lookup, when the thread's error was `err`. -/
def lookupOutcome (err : Err) :
    Except NameTree.Missing EntryPtr → Outcome Exn (Option EntryPtr) × Err
  | .ok e => (.ret (some e), err)
  | .error .name => (.ret none, .fileNotFound)
  | .error .directory => (.ret none, .directoryNotFound)

theorem lookupOutcome_error (err : Err) (missing : NameTree.Missing) :
    ∃ err', lookupOutcome err (.error missing) = (.ret none, err') := by
  cases missing with
  | name => exact ⟨_, rfl⟩
  | directory => exact ⟨_, rfl⟩

/-- The search for a name among the entries of a sound directory. -/
theorem find_eq (hwf : v.WellFormed) (hreach : v.Reachable key) (hkey : DirectoryAt v key es)
    {name : Str} (hnul : 0 ∉ name) :
    v.tree.find key name = es.find? fun e => Entry.nameMatches (v.entry e) name := by
  have htree : v.tree.entries key = es := hkey.entries_eq
  rw [NameTree.find, htree]
  refine List.find?_congr fun e he => ?_
  exact (nameMatches_eq_sameName (hwf.validName hreach hkey e he) hnul).symm

section
variable {fuel : ℕ} {name : Str} (path : List Str)

/-- One round of the loop, when the entry does not match. -/
theorem getEntryLoop_of_not_matches {e : EntryPtr}
    (he : Entry.nameMatches (v.entry e) name = false) (rounds : ℕ) (s : DirectoryHandle × Err) :
    getEntryLoop v fuel (rounds + 1) (some e) (name :: path) s
      = (do
          let entry ← DirectoryHandle.nextEntry v fuel
          getEntryLoop v fuel rounds entry (name :: path)
          : Call Exn (DirectoryHandle × Err) (Option EntryPtr)) s := by
  rw [getEntryLoop, Call.ite_apply, if_neg (by simp [he])]

/-- The entry that matches the last component is the result. -/
theorem getEntryLoop_of_last {rounds : ℕ} {e : EntryPtr} (he : Entry.nameMatches (v.entry e) name)
    (s : DirectoryHandle × Err) :
    getEntryLoop v fuel (rounds + 1) (some e) [name] s = (.ret (some e), s) := by
  rw [getEntryLoop, Call.ite_apply, if_pos he, Call.ite_apply, if_pos rfl]
  rfl

/-- An entry that matches an earlier component has to be a directory. -/
theorem getEntryLoop_of_not_directory {rounds : ℕ} {e : EntryPtr} (hpath : path ≠ [])
    (he : Entry.nameMatches (v.entry e) name) (hdir : Entry.isDirectory (v.entry e) = false)
    (h : DirectoryHandle) (err : Err) :
    getEntryLoop v fuel (rounds + 1) (some e) (name :: path) (h, err)
      = (.ret none, (h, .directoryNotFound)) := by
  rw [getEntryLoop, Call.ite_apply, if_pos he, Call.ite_apply, if_neg hpath, Call.ite_apply,
    if_pos hdir]
  rfl

/-- The key pointer of that directory has to be in range, and lead to a key block. -/
theorem getEntryLoop_of_not_opens {rounds : ℕ} {e : EntryPtr} (hpath : path ≠ [])
    (he : Entry.nameMatches (v.entry e) name) (hdir : Entry.isDirectory (v.entry e))
    (hnot : ¬ (Entry.keyPointer (v.entry e) < v.disk.numBlocks ∧ v.IsKeyBlock (v.keyBlock e)))
    (h : DirectoryHandle) (err : Err) :
    ∃ ex, getEntryLoop v fuel (rounds + 1) (some e) (name :: path) (h, err)
      = (.throw ex, (h, err)) := by
  rw [getEntryLoop, Call.ite_apply, if_pos he, Call.ite_apply, if_neg hpath, Call.ite_apply,
    if_neg (by simp [hdir])]
  rcases Nat.lt_or_ge (Entry.keyPointer (v.entry e)) v.disk.numBlocks with hlt | hge
  · refine ⟨.runtimeError "not a directory key block", ?_⟩
    rw [Call.bind_of_ret (Volume.readBlock_of_lt hlt _)]
    exact Call.bind_of_throw (openBlock_of_not_isKeyBlock (fun hkey => hnot ⟨hlt, hkey⟩) _)
  · exact ⟨_, Call.bind_of_throw (Volume.readBlock_of_ge hge _)⟩

/-- Then the loop goes on with the first entry of that directory. -/
theorem getEntryLoop_of_directory {rounds : ℕ} {e : EntryPtr} (hpath : path ≠ [])
    (he : Entry.nameMatches (v.entry e) name) (hdir : Entry.isDirectory (v.entry e))
    (hpointer : Entry.keyPointer (v.entry e) < v.disk.numBlocks)
    (hkey : v.IsKeyBlock (v.keyBlock e)) (h : DirectoryHandle) (err : Err) :
    getEntryLoop v fuel (rounds + 1) (some e) (name :: path) (h, err) = (do
      let entry ← DirectoryHandle.nextEntry v fuel
      getEntryLoop v fuel rounds entry path
      : Call Exn (DirectoryHandle × Err) (Option EntryPtr)) (.opened (v.keyBlock e), err) := by
  rw [getEntryLoop, Call.ite_apply, if_pos he, Call.ite_apply, if_neg hpath, Call.ite_apply,
    if_neg (by simp [hdir]), Call.bind_of_ret (Volume.readBlock_of_lt hpointer _),
    Call.bind_of_ret (openBlock_of_isKeyBlock (by exact hkey) _)]
  rfl

/-- No entry matches: the loop ends with the directory. -/
theorem scan_none (err : Err) {es : List EntryPtr} {h : DirectoryHandle}
    (hit : Iterates v fuel h es)
    (hnone : (es.find? fun e => Entry.nameMatches (v.entry e) name) = none) :
    ∀ {rounds : ℕ}, es.length + 1 ≤ rounds →
    ∃ h', (do
        let entry ← DirectoryHandle.nextEntry v fuel
        getEntryLoop v fuel rounds entry (name :: path)
        : Call Exn (DirectoryHandle × Err) (Option EntryPtr)) (h, err)
      = (.ret none, (h', .fileNotFound)) := by
  induction hit with
  | @nil h _ header count =>
    intro rounds hrounds
    obtain ⟨rounds, rfl⟩ := Nat.exists_eq_add_of_le' hrounds
    refine ⟨h, ?_⟩
    rw [Call.bind_of_ret (nextEntry_end header count fuel)]
    rfl
  | @cons _ _ e es head _ ih =>
    intro rounds hrounds
    rw [List.length_cons] at hrounds
    obtain ⟨rounds, rfl⟩ := Nat.exists_eq_add_of_le' (show 1 ≤ rounds by omega)
    rw [List.find?_cons] at hnone
    split at hnone
    · cases hnone
    · rename_i he
      obtain ⟨h'', heq⟩ := ih hnone (show es.length + 1 ≤ rounds by omega)
      exact ⟨h'', by rw [Call.bind_of_ret (head err), getEntryLoop_of_not_matches path he, heq]⟩

/-- Some entry matches: the loop arrives at the first one that does. -/
theorem scan_some (err : Err) {e : EntryPtr} {n : ℕ} {es : List EntryPtr} {h : DirectoryHandle}
    (hit : Iterates v fuel h es)
    (hsome : (es.find? fun e => Entry.nameMatches (v.entry e) name) = some e) :
    ∀ {rounds : ℕ}, es.length + n ≤ rounds →
    ∃ h' r, n ≤ r ∧ (do
        let entry ← DirectoryHandle.nextEntry v fuel
        getEntryLoop v fuel rounds entry (name :: path)
        : Call Exn (DirectoryHandle × Err) (Option EntryPtr)) (h, err)
      = getEntryLoop v fuel (r + 1) (some e) (name :: path) (h', err) := by
  induction hit with
  | nil => cases hsome
  | @cons _ h' e' es head _ ih =>
    intro rounds hrounds
    rw [List.length_cons] at hrounds
    obtain ⟨rounds, rfl⟩ := Nat.exists_eq_add_of_le' (show 1 ≤ rounds by omega)
    rw [List.find?_cons] at hsome
    split at hsome
    · cases hsome
      exact ⟨h', rounds, by omega, Call.bind_of_ret (head err)⟩
    · rename_i he
      obtain ⟨h'', r, hn, heq⟩ := ih hsome (show es.length + n ≤ rounds by omega)
      exact ⟨h'', r, hn, by
        rw [Call.bind_of_ret (head err), getEntryLoop_of_not_matches path he, heq]⟩

end

/-- **The walk, from a freshly opened directory.** The induction is on the components. -/
theorem walk_eq_lookup (hwf : v.WellFormed) {fuel : ℕ} (hfuel : 14 * 65536 ≤ fuel) (err : Err) :
    ∀ {path : List Str} {name : Str} {key : BlockPtr} (rounds : ℕ),
      (∀ n ∈ name :: path, 0 ∉ n) → v.Reachable key → 65536 * (path.length + 1) ≤ rounds →
      ∃ h', (do
          let entry ← DirectoryHandle.nextEntry v fuel
          getEntryLoop v fuel rounds entry (name :: path)
          : Call Exn (DirectoryHandle × Err) (Option EntryPtr)) (.opened key, err)
        = ((lookupOutcome err (v.tree.lookup key (name :: path))).1,
            (h', (lookupOutcome err (v.tree.lookup key (name :: path))).2)) := by
  intro path
  induction path with
  | nil =>
    intro name key rounds hnul hreach hrounds
    obtain ⟨es, hkey⟩ := hwf.directory hreach
    have hlen := hkey.length_lt
    have hfind := find_eq hwf hreach hkey (hnul name (List.mem_cons_self ..))
    cases hes : es.find? fun e => Entry.nameMatches (v.entry e) name with
    | none =>
      obtain ⟨h', heq⟩ := scan_none [] err (hkey.iterates hfuel) hes
        (show es.length + 1 ≤ rounds by omega)
      rw [NameTree.lookup_of_find_none (hfind.trans hes)]
      exact ⟨h', heq⟩
    | some e =>
      obtain ⟨h', r, -, heq⟩ := scan_some [] err (hkey.iterates hfuel) hes
        (show es.length + 1 ≤ rounds by omega)
      rw [NameTree.lookup_last (hfind.trans hes)]
      have hmatch : Entry.nameMatches (v.entry e) name = true := by simpa using List.find?_some hes
      exact ⟨h', heq.trans (getEntryLoop_of_last hmatch _)⟩
  | cons m path ih =>
    intro name key rounds hnul hreach hrounds
    obtain ⟨es, hkey⟩ := hwf.directory hreach
    have hlen := hkey.length_lt
    have hfind := find_eq hwf hreach hkey (hnul name (List.mem_cons_self ..))
    rw [List.length_cons, Nat.mul_succ] at hrounds
    have hbound : es.length + 65536 * (path.length + 1) ≤ rounds :=
      (Nat.add_comm .. ▸ Nat.add_le_add_left hlen.le _).trans hrounds
    cases hes : es.find? fun e => Entry.nameMatches (v.entry e) name with
    | none =>
      obtain ⟨h', heq⟩ := scan_none (m :: path) err (hkey.iterates hfuel) hes
        (show es.length + 1 ≤ rounds by omega)
      rw [NameTree.lookup_of_find_none (hfind.trans hes)]
      exact ⟨h', heq⟩
    | some e =>
      obtain ⟨h', r, hr, heq⟩ := scan_some (m :: path) err (hkey.iterates hfuel) hes hbound
      have hmatch : Entry.nameMatches (v.entry e) name = true := by simpa using List.find?_some hes
      have hmem := List.mem_of_find?_eq_some hes
      have htree := hfind.trans hes
      have hpath := List.cons_ne_nil m path
      cases hdir : Entry.isDirectory (v.entry e) with
      | false =>
        have hchild : v.tree.child e = none := if_neg (by simp [hdir])
        rw [NameTree.lookup_of_not_child htree hchild hpath]
        exact ⟨h', heq.trans (getEntryLoop_of_not_directory _ hpath hmatch hdir h' err)⟩
      | true =>
        have hchild : v.tree.child e = some (v.keyBlock e) := if_pos hdir
        have hreach' : v.Reachable (v.keyBlock e) := .child hreach hkey hmem hdir
        obtain ⟨es', hkey'⟩ := hwf.directory hreach'
        obtain ⟨h'', hrest⟩ := ih r (fun n hn => hnul n (List.mem_cons_of_mem _ hn)) hreach' hr
        have hpointer := hwf.keyPointer hreach hkey e hmem hdir
        rw [NameTree.lookup_of_child htree hchild hpath]
        refine ⟨h'', heq.trans (Eq.trans ?_ hrest)⟩
        exact getEntryLoop_of_directory _ hpath hmatch hdir hpointer hkey'.isKeyBlock h' err

/-- The lookup that `GetEntry` makes, of the components of the path. -/
noncomputable def Volume.lookup (v : Volume) (path : List Str) :
    Except NameTree.Missing EntryPtr :=
  v.tree.lookup (.image Volume.root) path

/-- **`GetEntry` is the lookup**: in every directory on the way the first entry that has the name
of the component, up to case, and one of two errors if there is none or it cannot be gone into. -/
theorem getEntry_eq_lookup (hwf : v.WellFormed) {pathname : Str} (hnul : 0 ∉ pathname)
    (hroot : pathname ≠ ascii "/") {fuel : ℕ}
    (hfuel : 65536 * ((splitPath pathname).length + 14) ≤ fuel) (err : Err) :
    getEntry v fuel pathname err = lookupOutcome err (v.lookup (splitPath pathname)) := by
  obtain ⟨es, hkey⟩ := hwf.directory .root
  have hsplit := splitPath_ne_nil pathname
  have hnuls : ∀ n ∈ splitPath pathname, 0 ∉ n := not_mem_splitLoop hnul _ _
  rw [Volume.lookup]
  cases hpath : splitPath pathname with
  | nil => exact absurd hpath hsplit
  | cons name path =>
    rw [hpath, List.length_cons] at hfuel
    rw [hpath] at hnuls
    have hbound : 14 * 65536 ≤ fuel := by omega
    obtain ⟨h', hwalk⟩ := walk_eq_lookup hwf hbound err fuel hnuls .root (by omega)
    have hlocal : (do
        DirectoryHandle.openBlock v (.image Volume.root)
        let entry ← DirectoryHandle.nextEntry v fuel
        getEntryLoop v fuel fuel entry (name :: path)
        : Call Exn (DirectoryHandle × Err) (Option EntryPtr)) (⟨none, none, 1, 0⟩, err) = _ :=
      (Call.bind_of_ret (openBlock_of_isKeyBlock hkey.isKeyBlock _)).trans hwalk
    rw [getEntry, Call.ite_apply, if_neg hroot, hpath]
    cases hlookup : v.tree.lookup (.image Volume.root) (name :: path) with
    | ok e =>
      rw [hlookup] at hlocal
      rw [Call.bind_of_ret (Call.withLocal_of_ret hlocal)]
      rfl
    | error missing =>
      rw [hlookup] at hlocal
      cases missing <;>
      · rw [Call.bind_of_ret (Call.withLocal_of_ret hlocal)]
        rfl

/-- What a pathname stands for: the root directory itself, or what its components lead to. -/
noncomputable def Volume.atPath (v : Volume) (pathname : Str) :
    Except NameTree.Missing EntryPtr :=
  if pathname = ascii "/" then .ok ⟨.image Volume.root, 0⟩ else v.lookup (splitPath pathname)

theorem lookupOutcome_returns (err : Err) (r : Except NameTree.Missing EntryPtr) :
    ∃ entry err', lookupOutcome err r = (.ret entry, err') := by
  rcases r with (_ | _) | e <;> exact ⟨_, _, rfl⟩

/-- The whole of `GetEntry`, for any pathname that is a C string. -/
theorem getEntry_eq_atPath (hwf : v.WellFormed) {pathname : Str} (hnul : 0 ∉ pathname) {fuel : ℕ}
    (hfuel : 65536 * ((splitPath pathname).length + 14) ≤ fuel) (err : Err) :
    getEntry v fuel pathname err = lookupOutcome err (v.atPath pathname) := by
  rw [getEntry, Volume.atPath]
  by_cases hroot : pathname = ascii "/"
  · rw [if_pos hroot, if_pos hroot]
    rfl
  · obtain ⟨es, hkey⟩ := hwf.directory .root
    obtain ⟨name, path, hpath⟩ := List.exists_cons_of_ne_nil (splitPath_ne_nil pathname)
    have hnuls : ∀ n ∈ name :: path, 0 ∉ n := hpath ▸ not_mem_splitLoop hnul _ _
    rw [hpath, List.length_cons] at hfuel
    have hbound : 14 * 65536 ≤ fuel := by omega
    obtain ⟨h', hwalk⟩ := walk_eq_lookup hwf hbound err fuel hnuls .root (by omega)
    obtain ⟨entry, err', hret⟩ :=
      lookupOutcome_returns err (v.tree.lookup (.image Volume.root) (name :: path))
    rw [if_neg hroot, if_neg hroot, Volume.lookup, hpath, hret]
    rw [hret] at hwalk
    exact Call.bind_of_ret (Call.withLocal_of_ret
      ((Call.bind_of_ret (openBlock_of_isKeyBlock hkey.isKeyBlock _)).trans hwalk))

theorem Volume.atPath_of_ne_root {pathname : Str} (hroot : pathname ≠ ascii "/") :
    v.atPath pathname = v.lookup (splitPath pathname) := if_neg hroot

end

/-! ### A survey of a volume -/

/-- A list of directories with what they contain, which has the root and, with a directory, its
subdirectories. -/
structure Survey (v : Volume) (survey : List (BlockPtr × List EntryPtr)) : Prop where
  root : .image Volume.root ∈ survey.map Prod.fst
  sound : ∀ d ∈ survey, DirectoryAt v d.1 d.2
  children : ∀ d ∈ survey, ∀ e ∈ d.2, Entry.isDirectory (v.entry e) →
    Entry.keyPointer (v.entry e) < v.disk.numBlocks ∧ v.keyBlock e ∈ survey.map Prod.fst

section
variable {v : Volume} {survey : List (BlockPtr × List EntryPtr)} {key : BlockPtr}
  {es : List EntryPtr}

theorem Survey.exists_mem (h : Survey v survey) (hreach : v.Reachable key) :
    ∃ es, (key, es) ∈ survey := by
  induction hreach with
  | root =>
    obtain ⟨d, hd, hkey⟩ := List.mem_map.mp h.root
    exact ⟨d.2, hkey ▸ hd⟩
  | child _ hkey hmem hdir ih =>
    obtain ⟨es, hes⟩ := ih
    obtain rfl := hkey.unique (h.sound _ hes)
    obtain ⟨d, hd, hkey⟩ := List.mem_map.mp (h.children _ hes _ hmem hdir).2
    exact ⟨d.2, hkey ▸ hd⟩

/-- A survey has everything that can be reached. -/
theorem Survey.mem (h : Survey v survey) (hreach : v.Reachable key) (hkey : DirectoryAt v key es) :
    (key, es) ∈ survey := by
  obtain ⟨es', hes⟩ := h.exists_mem hreach
  rwa [hkey.unique (h.sound _ hes)]

/-- A finite survey is enough to know that a volume is sound. -/
theorem Survey.wellFormed (h : Survey v survey)
    (hnames : ∀ d ∈ survey, ∀ e ∈ d.2, isValidName (Entry.fileName (v.entry e))) :
    v.WellFormed where
  directory hreach := by
    obtain ⟨es, hes⟩ := h.exists_mem hreach
    exact ⟨es, h.sound _ hes⟩
  validName hreach hkey := hnames _ (h.mem hreach hkey)
  keyPointer hreach hkey e he hdir := (h.children _ (h.mem hreach hkey) e he hdir).1

end

/-- The directories of the small volume. -/
def smallSurvey : List (BlockPtr × List EntryPtr) :=
  [(.image 1024, [⟨.image 1024, 2⟩, ⟨.image 1536, 12⟩]), (.image 2048, [⟨.image 2048, 1⟩]),
    (.image 2560, [⟨.image 2560, 1⟩])]

theorem directoryAt_small : ∀ d ∈ smallSurvey, DirectoryAt smallVolume d.1 d.2 := by
  intro d hd
  simp only [smallSurvey, List.mem_cons, List.not_mem_nil, or_false] at hd
  rcases hd with rfl | rfl | rfl
  · exact ⟨Or.inl (by decide), ⟨_, blockChain_small, by decide⟩, by decide⟩
  · exact ⟨Or.inr (by decide), ⟨[], ⟨.last (by decide), by decide, by decide, by decide⟩,
      by decide⟩, by decide⟩
  · exact ⟨Or.inr (by decide), ⟨[], ⟨.last (by decide), by decide, by decide, by decide⟩,
      by decide⟩, by decide⟩

theorem survey_small : Survey smallVolume smallSurvey :=
  ⟨by decide, directoryAt_small, by decide⟩

theorem wellFormed_small : smallVolume.WellFormed := survey_small.wellFormed (by decide)

/-- A directory of the small volume is found, whatever the case of the letters. -/
theorem getEntry_eq_lookup_small :
    getEntry smallVolume 1048576 (ascii "/d/E") .none = (.ret (some ⟨.image 2048, 1⟩), .none) := by
  have hroot := directoryAt_small (.image 1024, [⟨.image 1024, 2⟩, ⟨.image 1536, 12⟩]) (by decide)
  have hsub := directoryAt_small (.image 2048, [⟨.image 2048, 1⟩]) (by decide)
  have hreach : smallVolume.Reachable (smallVolume.keyBlock ⟨.image 1536, 12⟩) :=
    .child .root hroot (by decide) (by decide)
  have hd : smallVolume.tree.find (.image 1024) (ascii "d") = some ⟨.image 1536, 12⟩ :=
    (find_eq wellFormed_small .root hroot (by decide)).trans (by decide)
  have he : smallVolume.tree.find (.image 2048) (ascii "E") = some ⟨.image 2048, 1⟩ :=
    (find_eq wellFormed_small hreach hsub (by decide)).trans (by decide)
  have hchild : smallVolume.tree.child ⟨.image 1536, 12⟩ = some (.image 2048) := by decide
  have hlookup : smallVolume.lookup (splitPath (ascii "/d/E")) = .ok ⟨.image 2048, 1⟩ := by
    rw [show splitPath (ascii "/d/E") = [ascii "d", ascii "E"] by decide]
    exact (NameTree.lookup_of_child hd hchild (by decide)).trans (NameTree.lookup_last he)
  exact (getEntry_eq_lookup wellFormed_small (by decide) (by decide) (by decide) .none).trans
    (by rw [hlookup]; rfl)

end Prodosfs
