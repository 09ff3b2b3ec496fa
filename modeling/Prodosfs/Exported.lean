import Prodosfs.Mount
import Prodosfs.Paths

/-!
# Exported names

What `readdir` lists is looked up again by the callbacks that come after it, under the path that a
listed name makes. Some of them take a suffix off that path before they look.

A name in a directory entry is any fifteen bytes, and so may be empty, hold a colon, or be the name
of the catalogue. A name with a slash in it cannot be a component of a path.

## Main definitions

* `Mount.Lists` — what the root directory lists
* `Volume.resolve` — what a name in the root directory stands for

## Main results

* `exportedFilename_roundTrip` — an exported name leads back to the entry's name
* `Mount.Lists.iterates` — what is listed is what `NextEntry` yields
* `getEntry_root` — the lookup of a path of one component
-/

namespace Prodosfs

/-! ### Names in paths -/

section
variable {name : Str}

theorem joinPath_one (name : Str) : joinPath [name] = 47 :: name := by simp [joinPath]

/-- The suffix of a path is the suffix of its last component. -/
theorem prodosFilename_joinPath (mode : ExtensionMode) (name : Str) :
    prodosFilename mode (joinPath [name]) = joinPath [prodosFilename mode name] := by
  rw [joinPath_one, joinPath_one, prodosFilename, prodosFilename]
  by_cases hcolon : mode = .on ∧ 58 ∈ name
  · rw [if_pos ⟨hcolon.1, List.mem_cons_of_mem _ hcolon.2⟩, if_pos hcolon, List.reverse_cons,
      List.dropWhile_append]
    have hne : name.reverse.dropWhile (· ≠ 58) ≠ [] := by
      rw [Ne, List.dropWhile_eq_nil_iff]
      intro hall
      simpa using hall 58 (List.mem_reverse.mpr hcolon.2)
    obtain ⟨c, rest, hrest⟩ := List.exists_cons_of_ne_nil hne
    rw [hrest]
    simp
  · have hcolon' : ¬ (mode = .on ∧ 58 ∈ (47 :: name : Str)) := by
      rintro ⟨hmode, hmem⟩
      rcases List.mem_cons.mp hmem with h | h
      · exact absurd h (by decide)
      · exact hcolon ⟨hmode, h⟩
    rw [if_neg hcolon, if_neg hcolon']

theorem prodosFilename_sublist (mode : ExtensionMode) (name : Str) :
    (prodosFilename mode name).Sublist name := by
  rw [prodosFilename]
  split
  · have hsub := (List.drop_sublist 1 _).trans (List.dropWhile_sublist (l := name.reverse) (· ≠ 58))
    simpa using hsub.reverse
  · exact List.Sublist.refl name

theorem not_mem_prodosFilename (mode : ExtensionMode) {c : UInt8} (hc : c ∉ name) :
    c ∉ prodosFilename mode name := fun h => hc ((prodosFilename_sublist mode name).subset h)

/-- A suffix without a colon comes off. -/
theorem prodosFilename_append {name suffix : Str} (hsuffix : 58 ∉ suffix) :
    prodosFilename .on (name ++ ascii ":" ++ suffix) = name := by
  have hdrop : (suffix.reverse ++ 58 :: name.reverse).dropWhile (· ≠ 58) = 58 :: name.reverse := by
    rw [List.dropWhile_append_of_pos]
    · rfl
    · intro c hc
      simpa using fun h : c = 58 => hsuffix (h ▸ List.mem_reverse.mp hc)
  have hmem : (58 : UInt8) ∈ name ++ ascii ":" ++ suffix :=
    List.mem_append_left _ (List.mem_append_right _ (List.mem_cons_self ..))
  have hreverse : (name ++ ascii ":" ++ suffix).reverse = suffix.reverse ++ 58 :: name.reverse := by
    rw [List.reverse_append, List.reverse_append]
    rfl
  rw [prodosFilename, if_pos ⟨rfl, hmem⟩, hreverse, hdrop, List.drop_one, List.tail_cons,
    List.reverse_reverse]

/-- A name with a suffix is longer than without it. -/
theorem length_prodosFilename_lt (hcolon : 58 ∈ name) :
    (prodosFilename .on name).length < name.length := by
  have hpos := List.length_pos_of_mem hcolon
  have hsub := (List.dropWhile_sublist (l := name.reverse) (· ≠ 58)).length_le
  rw [List.length_reverse] at hsub
  rw [prodosFilename, if_pos ⟨rfl, hcolon⟩, List.length_reverse, List.length_drop]
  omega

/-- Which names are those of virtual files. -/
theorem virtualFileId_joinPath (hslash : 47 ∉ name) :
    virtualFileId (joinPath [name]) = if name = ascii ".CATALOG" then .catalog else .none := by
  have hfilename : pathFilename (joinPath [name]) = name := by
    rw [joinPath_one, pathFilename, List.reverse_cons, List.takeWhile_append_of_pos]
    · simp
    · intro c hc
      simpa using fun h : c = 47 => hslash (h ▸ List.mem_reverse.mp hc)
  rw [virtualFileId, hfilename, virtualFiles]
  by_cases hname : name = ascii ".CATALOG"
  · rw [if_pos hname, hname]
    rfl
  · have hbeq : (name == ascii ".CATALOG") = false := by simpa using hname
    rw [if_neg hname, List.lookup_cons, hbeq]
    rfl

end

/-! ### Exported names in any directory -/

section
variable {mode : ExtensionMode} {path : Str} {entry entry' : Block}

/-- Under a path without colons, the suffix of an exported name comes off again. -/
theorem prodosFilename_exportedFilename (mode : ExtensionMode) (hpath : 58 ∉ path)
    (hname : 58 ∉ Entry.fileName entry) :
    prodosFilename mode (path ++ ascii "/" ++ exportedFilename mode entry)
      = path ++ ascii "/" ++ Entry.fileName entry := by
  rw [exportedFilename]
  by_cases hsuffix : mode = .on ∧ Entry.isFile entry
  · obtain ⟨-, -, hcolon⟩ := not_mem_name_getFileTypeInfo (Entry.fileType entry)
    rw [if_pos hsuffix, hsuffix.1, List.append_assoc (Entry.fileName entry),
      ← List.append_assoc (path ++ ascii "/"), ← List.append_assoc]
    exact prodosFilename_append hcolon
  · have hslash : (58 : UInt8) ∉ ascii "/" := by decide
    have hnot : ¬ (mode = .on ∧ 58 ∈ path ++ ascii "/" ++ Entry.fileName entry) := by
      rintro ⟨-, hmem⟩
      simp only [List.mem_append] at hmem
      rcases hmem with (hmem | hmem) | hmem
      · exact hpath hmem
      · exact hslash hmem
      · exact hname hmem
    rw [if_neg hsuffix, prodosFilename, if_neg hnot]

/-- An exported name is a C string when the name in the entry is one. -/
theorem cStr_exportedFilename (mode : ExtensionMode) (hnul : 0 ∉ Entry.fileName entry) :
    cStr (exportedFilename mode entry) = exportedFilename mode entry := by
  refine cStr_of_not_mem ?_
  rw [exportedFilename]
  split
  · obtain ⟨hnul', -, -⟩ := not_mem_name_getFileTypeInfo (Entry.fileType entry)
    have hcolon : (0 : UInt8) ∉ ascii ":" := by decide
    simp [hnul, hnul', hcolon]
  · exact hnul

/-- **Exported names.** A path made with an exported name is taken back to the path made with the
name in the entry, and so entries with different names are exported under different names; the
kernel, which gets C strings, sees them as different too when the names are C strings. -/
theorem exportedFilename_roundTrip (mode : ExtensionMode) (hpath : 58 ∉ path)
    (hname : 58 ∉ Entry.fileName entry) (hname' : 58 ∉ Entry.fileName entry') :
    prodosFilename mode (path ++ ascii "/" ++ exportedFilename mode entry)
        = path ++ ascii "/" ++ Entry.fileName entry ∧
      (Entry.fileName entry ≠ Entry.fileName entry' →
        exportedFilename mode entry ≠ exportedFilename mode entry' ∧
        (0 ∉ Entry.fileName entry → 0 ∉ Entry.fileName entry' →
          cStr (exportedFilename mode entry) ≠ cStr (exportedFilename mode entry'))) := by
  have hback := prodosFilename_exportedFilename mode hpath hname
  have hback' := prodosFilename_exportedFilename mode hpath hname'
  refine ⟨hback, fun hne => ?_⟩
  have hexported : exportedFilename mode entry ≠ exportedFilename mode entry' := by
    intro heq
    rw [heq, hback'] at hback
    exact hne (List.append_cancel_left hback).symm
  refine ⟨hexported, fun hnul hnul' => ?_⟩
  rwa [cStr_exportedFilename mode hnul, cStr_exportedFilename mode hnul']

/-- Two entries that differ in their names and their types, in a subdirectory. -/
theorem exportedFilename_roundTrip_text :
    prodosFilename .on
        (ascii "/D" ++ ascii "/" ++ exportedFilename .on (smallVolume.entry textFile))
        = ascii "/D" ++ ascii "/" ++ Entry.fileName (smallVolume.entry textFile) ∧
      (Entry.fileName (smallVolume.entry textFile)
          ≠ Entry.fileName (smallVolume.entry ⟨.image 1536, 12⟩) →
        exportedFilename .on (smallVolume.entry textFile)
            ≠ exportedFilename .on (smallVolume.entry ⟨.image 1536, 12⟩) ∧
        (0 ∉ Entry.fileName (smallVolume.entry textFile) →
          0 ∉ Entry.fileName (smallVolume.entry ⟨.image 1536, 12⟩) →
          cStr (exportedFilename .on (smallVolume.entry textFile))
            ≠ cStr (exportedFilename .on (smallVolume.entry ⟨.image 1536, 12⟩)))) :=
  exportedFilename_roundTrip .on (by decide) (by decide) (by decide)

end

/-! ### What is listed -/

/-- The name under which an entry is listed. -/
def Mount.listedName (m : Mount) (e : EntryPtr) : Str :=
  cStr (exportedFilename m.extensionMode (m.volume.entry e))

/-- `prodosfs_opendir` and `prodosfs_readdir` list the entries `es` of the root directory: both
return 0, `NextEntry` yields `es`, and their names are the ones that a filler gets which is never
full, after those of the directory itself and its parent. -/
def Mount.Lists (m : Mount) (fuel : ℕ) (es : List EntryPtr) : Prop :=
  ∃ err dh err' s, prodosfsOpendir m fuel (ascii "/") err = (.ret (0, some dh), err') ∧
    prodosfsReaddir m fuel (fun _ _ => false) (dh, err')
      = (.ret (0, ascii "." :: ascii ".." :: es.map m.listedName), s) ∧
    ∀ k (hk : k < es.length),
      (Call.nth (DirectoryHandle.nextEntry m.volume fuel) (dh, err') k).1 = .ret (some es[k])

section
variable {m : Mount} {fuel : ℕ} {es : List EntryPtr}

/-- The calls of an iteration that comes to an end. -/
theorem Iterates.nth {v : Volume} {h : DirectoryHandle} (hit : Iterates v fuel h es) (err : Err) :
    ∀ {k : ℕ} (hk : k < es.length),
      (Call.nth (DirectoryHandle.nextEntry v fuel) (h, err) k).1 = .ret (some es[k]) := by
  induction hit with
  | nil =>
    intro k hk
    exact absurd hk (Nat.not_lt_zero k)
  | cons head _ ih =>
    intro k hk
    cases k with
    | zero =>
      rw [Call.nth_zero, head]
      rfl
    | succ k =>
      rw [Call.nth_succ', head]
      exact ih (Nat.lt_of_succ_lt_succ hk)

/-- The loop of `readdir` is an iteration. The induction is on its bound. -/
theorem readdirLoop_eq_ret : ∀ {rounds : ℕ} {names names' : List Str} {h : DirectoryHandle}
    {err : Err} {s : DirectoryHandle × Err},
    readdirLoop m fuel (fun _ _ => false) rounds names (h, err) = (.ret names', s) →
    ∃ es, Iterates m.volume fuel h es ∧ es.length + 1 ≤ rounds ∧
      names' = names ++ es.map m.listedName := by
  intro rounds
  induction rounds with
  | zero =>
    intro names names' h err s hloop
    cases hloop
  | succ rounds ih =>
    intro names names' h err s hloop
    rw [readdirLoop, Call.bind_eq_ret_iff] at hloop
    obtain ⟨entry, t, hnext, hrest⟩ := hloop
    cases entry with
    | none =>
      obtain ⟨key, hheader, hcount, rfl⟩ := nextEntry_none hnext
      cases hrest
      exact ⟨[], .nil hheader hcount, by simp, by simp⟩
    | some e =>
      obtain ⟨h', rfl, hnext'⟩ := nextEntry_some hnext
      obtain ⟨es, hit, hlen, rfl⟩ := ih hrest
      exact ⟨e :: es, .cons hnext' hit, Nat.succ_le_succ hlen, by simp [Mount.listedName]⟩

/-- **What is listed is an iteration over the root directory.** -/
theorem Mount.Lists.iterates (hlist : m.Lists fuel es) (hv : m.volume.Accepted) :
    Iterates m.volume fuel (.opened (.image Volume.root)) es ∧ es.length + 1 ≤ fuel := by
  obtain ⟨err, dh, err', s, hopendir, hreaddir, hnth⟩ := hlist
  rw [prodosfsOpendir, Call.bind_of_ret (openDirectory_root hv fuel err)] at hopendir
  cases hopendir
  rw [prodosfsReaddir, Call.bind_eq_ret_iff] at hreaddir
  obtain ⟨names, ⟨h, err''⟩, hloop, hrest⟩ := hreaddir
  obtain ⟨es', hit, hrounds, rfl⟩ := readdirLoop_eq_ret hloop
  have hnames : es'.map m.listedName = es.map m.listedName := by
    rw [Call.get_bind_apply] at hrest
    simp only [Call.ite_apply] at hrest
    have hcancel : ∀ {r : ℤ}, (Outcome.ret (r, [ascii ".", ascii ".."] ++ es'.map m.listedName)
        : Outcome Exn (ℤ × List Str)) = .ret (0, [ascii ".", ascii ".."] ++ es.map m.listedName) →
        es'.map m.listedName = es.map m.listedName := by
      intro r heq
      exact List.append_cancel_left (Prod.mk.inj (Outcome.ret.inj heq)).2
    split at hrest
    · exact hcancel (Prod.mk.inj hrest).1
    · exact hcancel (Prod.mk.inj hrest).1
  have hlen : es'.length = es.length := by
    simpa using congrArg List.length hnames
  have heq : es' = es := by
    refine List.ext_getElem hlen fun k hk hk' => ?_
    have hcall := hnth k hk'
    rw [hit.nth _ hk] at hcall
    exact Option.some.inj (Outcome.ret.inj hcall)
  rw [← heq]
  exact ⟨hit, hrounds⟩

/-- An iteration that comes to an end is listed. The induction is on the iteration. -/
theorem readdirLoop_of_iterates {h : DirectoryHandle} (hit : Iterates m.volume fuel h es)
    (err : Err) : ∀ {rounds : ℕ} (names : List Str), es.length + 1 ≤ rounds →
      ∃ h', readdirLoop m fuel (fun _ _ => false) rounds names (h, err)
        = (.ret (names ++ es.map m.listedName), (h', .endOfFile)) := by
  induction hit with
  | @nil h _ header count =>
    intro rounds names hrounds
    obtain ⟨rounds, rfl⟩ := Nat.exists_eq_add_of_le' (show 1 ≤ rounds from hrounds)
    refine ⟨h, ?_⟩
    rw [readdirLoop, Call.bind_of_ret (nextEntry_end header count fuel), List.map_nil,
      List.append_nil]
    rfl
  | @cons _ h' e es head _ ih =>
    intro rounds names hrounds
    rw [List.length_cons] at hrounds
    obtain ⟨rounds, rfl⟩ := Nat.exists_eq_add_of_le' (show 1 ≤ rounds by omega)
    obtain ⟨h'', hrest⟩ := ih (names ++ [m.listedName e]) (show es.length + 1 ≤ rounds by omega)
    refine ⟨h'', ?_⟩
    rw [readdirLoop, Call.bind_of_ret (head err)]
    simpa [Mount.listedName] using hrest

theorem Mount.lists_of_iterates (hv : m.volume.Accepted)
    (hit : Iterates m.volume fuel (.opened (.image Volume.root)) es)
    (hfuel : es.length + 1 ≤ fuel) : m.Lists fuel es := by
  obtain ⟨h', hloop⟩ := readdirLoop_of_iterates hit .none [ascii ".", ascii ".."] hfuel
  refine ⟨.none, _, .none, (h', .endOfFile), ?_, ?_, fun k hk => hit.nth .none hk⟩
  · rw [prodosfsOpendir, Call.bind_of_ret (openDirectory_root hv fuel .none)]
    rfl
  · rw [prodosfsReaddir]
    exact (Call.bind_of_ret hloop).trans rfl

/-! ### Listed names are looked up -/

/-- What a name in the root directory stands for: the first entry that matches it. The empty name
stands for the directory itself. -/
def Volume.resolve (v : Volume) (es : List EntryPtr) (name : Str) : Option EntryPtr :=
  if name = [] then some ⟨.image Volume.root, 0⟩
  else es.find? fun e => Entry.nameMatches (v.entry e) name

theorem getEntry_root {v : Volume} (hv : v.Accepted)
    (hit : Iterates v fuel (.opened (.image Volume.root)) es) (hfuel : es.length + 1 ≤ fuel)
    {name : Str} (hslash : 47 ∉ name) (err : Err) :
    getEntry v fuel (joinPath [name]) err = match v.resolve es name with
      | some e => (.ret (some e), err)
      | none => (.ret none, .fileNotFound) := by
  by_cases hname : name = []
  · rw [hname]
    rfl
  · have hpath : joinPath [name] ≠ ascii "/" := by
      rw [joinPath_one]
      intro h
      exact hname (List.cons.inj h).2
    rw [Volume.resolve, if_neg hname, getEntry, Call.ite_apply, if_neg hpath,
      splitPath_joinPath_one hslash]
    have hopen := openBlock_of_isKeyBlock (isKeyBlock_root hv) (⟨none, none, 1, 0⟩, err)
    cases hfind : es.find? fun e => Entry.nameMatches (v.entry e) name with
    | none =>
      obtain ⟨h', hscan⟩ := scan_none [] err hit hfind hfuel
      rw [Call.bind_of_ret (Call.withLocal_of_ret ((Call.bind_of_ret hopen).trans hscan))]
      rfl
    | some e =>
      obtain ⟨h', r, -, hscan⟩ := scan_some (n := 1) [] err hit hfind hfuel
      have hmatch : Entry.nameMatches (v.entry e) name = true := by
        simpa using List.find?_some hfind
      rw [getEntryLoop_of_last hmatch] at hscan
      rw [Call.bind_of_ret (Call.withLocal_of_ret ((Call.bind_of_ret hopen).trans hscan))]
      rfl

end

/-- The root directory of the small volume. -/
theorem root_small : DirectoryAt smallVolume (.image 1024) [textFile, ⟨.image 1536, 12⟩] :=
  directoryAt_small (.image 1024, [textFile, ⟨.image 1536, 12⟩]) (by decide)

end Prodosfs
