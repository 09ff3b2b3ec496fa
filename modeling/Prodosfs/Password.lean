import Prodosfs.Layouts

/-!
# The places a key pointer reads

`S_Deobfuscate` walks around the password with a pointer into a buffer of 32 bytes. A round of its
loop reads the buffer twice: the character under the pointer, and, when the pointer has been moved
on, the place one past it, which tells whether to go back to the start.

```
pointer   p                   p + 1
reads     p                   p + 2
```

The second read is past the end of the password whenever the pointer is about to go back, so that
there has to be a zero behind the password. It is also the reason why the last character is never
combined with anything: by the time the pointer would come to it, the place behind it has been read.

A NUL inside the password only makes the pointer go back earlier, and at its first or second place
not even that.

## Main definitions

* `keyReads` — the reads of the loop, in order

## Main results

* `deobfuscateLoop_congr` — these are all the places that matter
* `keyReads_inside` — they are in the password, or the place behind it
* `deobfuscateLoop_spec` — the loop for every password file
-/

namespace Prodosfs

/-- A read of the key. -/
structure KeyRead where
  /-- `ptr`, when the buffer is read. -/
  ptr : ℕ
  /-- The place of the buffer that is read. -/
  place : ℕ
  deriving DecidableEq, Repr

/-- The reads of `n` rounds of the loop of `S_Deobfuscate`. -/
def keyReads (passwd : Block) : ℕ → ℕ → List KeyRead
  | 0, _ => []
  | n + 1, ptr =>
    ⟨ptr, ptr⟩ :: ⟨ptr + 1, ptr + 1 + 1⟩ :: keyReads passwd n (stepKey passwd ptr)

/-- **The loop depends on the places it reads, and on no others.** -/
theorem deobfuscateLoop_congr {passwd passwd' : Block} (cipher : Block) (n : ℕ) :
    ∀ (i ptr : ℕ) (plain : Block),
      (∀ r ∈ keyReads passwd n ptr, passwd' r.place = passwd r.place) →
        deobfuscateLoop passwd' cipher n i ptr plain
          = deobfuscateLoop passwd cipher n i ptr plain := by
  induction n with
  | zero =>
    intro i ptr plain _
    rfl
  | succ n ih =>
    intro i ptr plain h
    obtain ⟨hkey, hahead, hrest⟩ := by
      simpa only [keyReads, List.forall_mem_cons] using h
    have hstep : stepKey passwd' ptr = stepKey passwd ptr := by
      rw [stepKey, stepKey, hahead]
    rw [deobfuscateLoop, deobfuscateLoop, hkey, hstep, ih _ _ _ hrest]

section
variable {p : Str}

/-- What is not zero in the buffer is in the password. -/
theorem lt_of_passwdBuffer {i : ℕ} (h : passwdBuffer p i ≠ 0) : i < p.length := by
  refine Nat.lt_of_not_le fun hle => h ?_
  exact List.getD_eq_default p 0 hle

/-- A round leaves the pointer before the last character, wherever there are zeros. -/
theorem stepKey_lt {ptr : ℕ} (h : ptr + 1 < p.length) :
    stepKey (passwdBuffer p) ptr + 1 < p.length := by
  rw [stepKey]
  split
  · omega
  · exact lt_of_passwdBuffer ‹_›

/-- **The pointer stays in the password**, and what is read is in it or right behind it. -/
theorem keyReads_inside (n : ℕ) : ∀ {ptr : ℕ}, ptr + 1 < p.length →
    ∀ r ∈ keyReads (passwdBuffer p) n ptr, r.ptr < p.length ∧ r.place ≤ p.length := by
  induction n with
  | zero =>
    intro ptr _ r hr
    cases hr
  | succ n ih =>
    intro ptr h
    rw [keyReads]
    simp only [List.forall_mem_cons]
    exact ⟨⟨Nat.lt_of_succ_lt h, Nat.le_of_lt (Nat.lt_of_succ_lt h)⟩, ⟨h, h⟩, ih (stepKey_lt h)⟩

/-- At most 31 bytes of the password file are read, so that the buffer ends with a zero. -/
theorem length_of_password_le {f : PasswordFile} (h : password f = some p) : p.length ≤ 31 := by
  cases f with
  | regular bytes =>
    rw [password] at h
    simp only [Option.ite_none_left_eq_some, Option.some.injEq] at h
    obtain ⟨-, -, rfl⟩ := h
    have htake : (bytes.take 31).length ≤ 31 := List.length_take_le 31 bytes
    split
    · rw [List.length_dropLast]
      omega
    · exact htake
  | _ => cases h

/-- The loop masks with the repeated key. -/
theorem deobfuscateLoop_of_lt (hnul : 0 ∉ p) (hlen : 2 ≤ p.length) (src dst : Block) {i : ℕ}
    (hi : i < 512) :
    deobfuscateLoop (passwdBuffer p) src 512 0 0 dst i = applyMask (repeatedKey p) 512 src i := by
  rw [deobfuscateLoop_eq, applyMask_of_lt _ _ hi]
  simp only [if_pos (show 0 ≤ i ∧ i < 0 + 512 by omega)]
  rw [repeatedKey, ← keyMask_eq hnul hlen]
  rfl

theorem deobfuscateLoop_of_ge (passwd src dst : Block) {i : ℕ} (hi : 512 ≤ i) :
    deobfuscateLoop passwd src 512 0 0 dst i = dst i := by
  rw [deobfuscateLoop_eq]
  exact if_neg (by omega)

/-- The repeated key does not contain the last character. -/
theorem repeatedKey_concat (p : Str) (hlen : 2 ≤ p.length) (c : UInt8) :
    repeatedKey (p.dropLast ++ [c]) = repeatedKey p := by
  have hlength : (p.dropLast ++ [c]).length = p.length := by
    rw [List.length_append, List.length_dropLast, List.length_singleton]
    omega
  funext i
  have hlt : i % (p.length - 1) < p.dropLast.length := by
    rw [List.length_dropLast]
    exact Nat.mod_lt i (by omega)
  rw [repeatedKey, repeatedKey, hlength, List.getD_append _ _ _ _ hlt]
  rw [List.getD_eq_getElem _ _ hlt, List.getElem_dropLast, List.getD_eq_getElem]

/-- The last character of the password does not matter. -/
theorem deobfuscateLoop_concat (hnul : 0 ∉ p) (hlen : 2 ≤ p.length) {c : UInt8} (hc : c ≠ 0)
    (src dst : Block) : deobfuscateLoop (passwdBuffer (p.dropLast ++ [c])) src 512 0 0 dst
      = deobfuscateLoop (passwdBuffer p) src 512 0 0 dst := by
  have hnul' : 0 ∉ p.dropLast ++ [c] := by
    rw [List.mem_append, List.mem_singleton]
    rintro (h | h)
    · exact hnul (List.dropLast_subset p h)
    · exact hc h.symm
  have hlen' : 2 ≤ (p.dropLast ++ [c]).length := by
    rw [List.length_append, List.length_dropLast, List.length_singleton]
    omega
  funext i
  rcases Nat.lt_or_ge i 512 with hi | hi
  · rw [deobfuscateLoop_of_lt hnul' hlen' src dst hi, deobfuscateLoop_of_lt hnul hlen src dst hi,
      repeatedKey_concat p hlen]
  · rw [deobfuscateLoop_of_ge _ _ _ hi, deobfuscateLoop_of_ge _ _ _ hi]

/-- Going through the loop twice gives the block back. -/
theorem deobfuscateLoop_deobfuscateLoop (hnul : 0 ∉ p) (hlen : 2 ≤ p.length)
    (src dst dst' : Block) {i : ℕ} (hi : i < 512) :
    deobfuscateLoop (passwdBuffer p)
      (deobfuscateLoop (passwdBuffer p) src 512 0 0 dst) 512 0 0 dst' i = src i := by
  have hmask := deobfuscateLoop_of_lt hnul hlen src dst hi
  calc deobfuscateLoop (passwdBuffer p)
        (deobfuscateLoop (passwdBuffer p) src 512 0 0 dst) 512 0 0 dst' i
      = applyMask (repeatedKey p) 512 (deobfuscateLoop (passwdBuffer p) src 512 0 0 dst) i :=
        deobfuscateLoop_of_lt hnul hlen _ dst' hi
    _ = applyMask (repeatedKey p) 512 (applyMask (repeatedKey p) 512 src) i :=
        applyMask_congr _ hmask
    _ = src i := congrFun (applyMask_involutive _ _ src) i

end

/-- **The loop of `S_Deobfuscate`, for every password file** that gets it to the loop, NULs or not:
the pointer is in the password whenever the buffer is read, and what is read is in the buffer of
32 bytes; the other places of the buffer do not matter. If the password has no NUL, the block is
masked with all of its characters but the last, so that the last one does not matter, and doing it
again gives the block back. -/
theorem deobfuscateLoop_spec {bytes p : Str} (hpassword : password (.regular bytes) = some p)
    (src dst : Block) :
    (∀ r ∈ keyReads (passwdBuffer p) 512 0, r.ptr < p.length ∧ r.place < 32) ∧
      (∀ passwd, (∀ r ∈ keyReads (passwdBuffer p) 512 0, passwd r.place = passwdBuffer p r.place) →
        deobfuscateLoop passwd src 512 0 0 dst
          = deobfuscateLoop (passwdBuffer p) src 512 0 0 dst) ∧
      (0 ∉ p →
        (∀ i < 512, deobfuscateLoop (passwdBuffer p) src 512 0 0 dst i
          = src i ^^^ (p.getD (i % (p.length - 1)) 0 ^^^ 0x7F)) ∧
        (∀ c, c ≠ 0 → deobfuscateLoop (passwdBuffer (p.dropLast ++ [c])) src 512 0 0 dst
          = deobfuscateLoop (passwdBuffer p) src 512 0 0 dst) ∧
        ∀ dst' : Block, ∀ i < 512, deobfuscateLoop (passwdBuffer p)
          (deobfuscateLoop (passwdBuffer p) src 512 0 0 dst) 512 0 0 dst' i = src i) := by
  have hlen : 2 ≤ p.length := length_of_password hpassword
  have hle : p.length ≤ 31 := length_of_password_le hpassword
  refine ⟨fun r hr => ?_, fun passwd => deobfuscateLoop_congr src 512 0 0 dst,
    fun hnul => ⟨fun i hi => ?_, fun c hc => ?_, fun dst' i hi => ?_⟩⟩
  · obtain ⟨hptr, hplace⟩ := keyReads_inside 512 (show 0 + 1 < p.length by omega) r hr
    exact ⟨hptr, Nat.lt_of_le_of_lt hplace (Nat.lt_succ_of_le hle)⟩
  · rw [deobfuscateLoop_of_lt hnul hlen src dst hi, applyMask_of_lt _ _ hi]
    rfl
  · exact deobfuscateLoop_concat hnul hlen hc src dst
  · exact deobfuscateLoop_deobfuscateLoop hnul hlen src dst dst' hi

theorem deobfuscateLoop_spec_secret :
    password (.regular (ascii "secret\n")) = some (ascii "secret") ∧ 0 ∉ ascii "secret" ∧
      ∀ i < 512,
        deobfuscateLoop (passwdBuffer (ascii "secret")) (fun _ => 0) 512 0 0 (fun _ => 0) i
          = 0 ^^^ ((ascii "secret").getD (i % 5) 0 ^^^ 0x7F) :=
  have hpassword : password (.regular (ascii "secret\n")) = some (ascii "secret") := by decide
  have hnul : 0 ∉ ascii "secret" := by decide
  ⟨hpassword, hnul, ((deobfuscateLoop_spec hpassword _ _).2.2 hnul).1⟩

end Prodosfs
