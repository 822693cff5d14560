import Hypervi.Freestanding.Formatting
import Hypervi.Loader.Terminal

/-!
# Numbers on the console

`efi_console_hex` has `itoa` write into a buffer of 17 bytes and prints what is in it.  The
result is a message like any other (`efiConsoleHex_eq`), so that what the console keeps of
messages holds for numbers as well: as long as its page is shown, a number that was logged can
be read off the screen (`efiConsoleHex_shown`).
-/

namespace Hypervi.Loader

open Freestanding Numerals

/-! ## The code -/

/-- The characters from `k` on up to a NUL, as far as `n` bytes go. -/
def readChars (a : Nat → BitVec 8) : Nat → Nat → List (BitVec 8)
  | 0, _ => []
  | n + 1, k => if a k = 0 then [] else a k :: readChars a n (k + 1)

theorem readChars_ne_nul (a : Nat → BitVec 8) (n k : Nat) : ∀ c ∈ readChars a n k, c ≠ 0 := by
  induction n generalizing k with
  | zero => exact fun c hc ↦ absurd hc List.not_mem_nil
  | succ n ih =>
      rw [readChars]
      split
      · exact fun c hc ↦ absurd hc List.not_mem_nil
      · rename_i hne
        exact List.forall_mem_cons.mpr ⟨hne, ih (k + 1)⟩

/-- The string in a buffer of `n` bytes. -/
def stringIn (a : Nat → BitVec 8) (n : Nat) : CString := ⟨readChars a n 0, readChars_ne_nul a n 0⟩

/-- `efi_console_hex`.  The division loop of `itoa` is given as many steps as there are
digits at most. -/
def efiConsoleHex (c : Console) (buff : Nat → BitVec 8) (number : BitVec 64) :
    Except ItoaFault Console :=
  (itoa 16 number buff 16 1 0).map fun r ↦ efiConsoleWrite c (stringIn r.buff.contents 17)

/-- The numeral that is printed. -/
def hexString (number : BitVec 64) : CString where
  chars := numeral digitChar 16 number.toNat
  ne_nul := forall_numeral digitChar_ne_zero (by decide) (by decide)

/-! ## The message -/

theorem readChars_eq {a : Nat → BitVec 8} {cs : List (BitVec 8)} {n k : Nat}
    (h : SpellsFrom a k cs) (hn : cs.length < n) : readChars a n k = cs := by
  induction cs generalizing n k with
  | nil =>
      obtain ⟨n, rfl⟩ := Nat.exists_eq_succ_of_ne_zero (Nat.ne_of_gt hn)
      rw [readChars, if_pos (spellsFrom_nil_iff.mp h)]
  | cons c cs ih =>
      obtain ⟨n, rfl⟩ := Nat.exists_eq_succ_of_ne_zero (Nat.ne_of_gt (Nat.zero_lt_of_lt hn))
      obtain ⟨hc, hne, hcs⟩ := h.tail
      rw [readChars, hc, if_neg hne, ih hcs (Nat.lt_of_succ_lt_succ hn)]

theorem length_hexString (number : BitVec 64) : (hexString number).length ≤ 16 :=
  length_numeral_hex number

/-- Sixteen steps are enough for the digits, and what is in the buffer is the numeral. -/
theorem itoa_hex (number : BitVec 64) (buff : Nat → BitVec 8) :
    ∃ r, itoa 16 number buff 16 1 0 = .ok r ∧ Spells r.buff.contents (hexString number) := by
  have hradix : (16 : BitVec 32).toNat = 16 := rfl
  have hlength := length_hexString number
  have hdigits : (digitsOf (16 : BitVec 32).toNat number.toNat).length ≤ 16 := by
    rw [hradix, ← length_numeral digitChar]
    exact hlength
  have hloop := digitLoop_eq (by decide) hdigits ⟨buff, 0, []⟩
  have hends : ∃ r, itoa 16 number buff 16 1 0 = .ok r :=
    (itoa_ok_iff (by decide)).mpr ⟨_, hloop⟩
  obtain ⟨r, hr⟩ := hends
  have hnumeral : ∃ (r : Itoa) (s : CString), ItoaReturns number buff 16 1 0 r ∧
      Spells r.buff.contents s ∧ r.count.toInt = s.length ∧
      s.chars = numeral digitChar 16 number.toNat :=
    itoaReturns_numeral number buff 1 (by decide) (by decide)
  obtain ⟨r', s, hreturns, hspells, -, hchars⟩ := hnumeral
  obtain rfl : r = r' := ItoaReturns.unique (by decide) ⟨16, hr⟩ hreturns
  refine ⟨r, hr, ?_⟩
  obtain rfl : s = hexString number := CString.mk.injEq _ _ _ _ ▸ hchars
  exact hspells

/-- A number is a message. -/
theorem efiConsoleHex_eq (c : Console) (buff : Nat → BitVec 8) (number : BitVec 64) :
    efiConsoleHex c buff number = .ok (efiConsoleWrite c (hexString number)) := by
  obtain ⟨r, hr, hspells⟩ := itoa_hex number buff
  have hlength := length_hexString number
  have hchars : (stringIn r.buff.contents 17).chars = (hexString number).chars :=
    readChars_eq hspells.from (Nat.lt_succ_of_le hlength)
  have hstring : stringIn r.buff.contents 17 = hexString number := by
    cases hs : stringIn r.buff.contents 17
    cases hh : hexString number
    rw [hs, hh] at hchars
    cases hchars
    rfl
  rw [efiConsoleHex, hr, ← hstring]
  rfl

/-! ## What is shown -/

/-- A digit is neither a newline nor a tab. -/
theorem digitChar_ne_newline : ∀ d < 16, digitChar d ≠ newline ∧ digitChar d ≠ tab := by decide

/-- Characters in the line leave the newlines and make it as much wider as they are. -/
theorem lineWidth_append (cs : List (BitVec 8)) {ds : List (BitVec 8)}
    (h : ∀ d ∈ ds, d ≠ newline ∧ d ≠ tab) :
    lineWidth (cs ++ ds) = lineWidth cs + ds.length ∧ newlines (cs ++ ds) = newlines cs := by
  induction ds using List.reverseRecOn with
  | nil => exact ⟨by rw [List.append_nil]; rfl, by rw [List.append_nil]⟩
  | append_singleton ds d ih =>
      obtain ⟨hwidth, hlines⟩ := ih fun e he ↦ h e (List.mem_append_left _ he)
      obtain ⟨hnewline, htab⟩ := h d (List.mem_append_right _ (List.mem_singleton_self d))
      rw [← List.append_assoc, lineWidth_concat, newlines_concat, widen, if_neg hnewline,
        if_neg htab, if_neg hnewline, hwidth, hlines, List.length_append]
      exact ⟨rfl, rfl⟩

/-- **Numbers can be read.**  As long as its page is the last one, the cells in which a number
was printed show the hexadecimal numeral of this number, whatever has been printed since. -/
theorem efiConsoleHex_shown (memory : BitVec 64 → BitVec 8) (al : BitVec 8)
    (messages later : List CString) (buff : Nat → BitVec 8) (number : BitVec 64)
    (hkeeps : KeepsToLines (text (messages ++ hexString number :: later)))
    (hpage : newlines (text messages) / 70 = page (text (messages ++ hexString number :: later))) :
    ∃ c, efiConsoleHex (writeAll (efiConsoleInit memory al) messages) buff number = .ok c ∧
      IsNumeral digitValue 16
        ((List.range (hexString number).length).map fun i ↦
          drawnCharacter (writeAll c later)
            ⟨BitVec.ofNat 64 (lineWidth (text messages) + i),
              BitVec.ofNat 64 (newlines (text messages) % 70)⟩)
        number.toNat := by
  refine ⟨_, efiConsoleHex_eq _ _ _, ?_⟩
  have hall : writeAll (efiConsoleWrite (writeAll (efiConsoleInit memory al) messages)
      (hexString number)) later =
      writeAll (efiConsoleInit memory al) (messages ++ hexString number :: later) := by
    rw [writeAll, writeAll, writeAll, List.foldl_append]
    rfl
  have hprinted : ∀ d ∈ (hexString number).chars, d ≠ newline ∧ d ≠ tab :=
    forall_numeral digitChar_ne_newline (by decide) (by decide)
  have htext : text (messages ++ hexString number :: later) =
      text messages ++ ((hexString number).chars ++ text later) := by
    rw [text, List.flatMap_append, List.flatMap_cons]
    rfl
  -- the digits one by one
  have hcell (i : Nat) (hi : i < (hexString number).chars.length) :
      drawnCharacter (writeAll (efiConsoleInit memory al) (messages ++ hexString number :: later))
        ⟨BitVec.ofNat 64 (lineWidth (text messages) + i),
          BitVec.ofNat 64 (newlines (text messages) % 70)⟩ = (hexString number).chars[i] := by
    obtain ⟨hnewline, htab⟩ := hprinted _ (List.getElem_mem hi)
    obtain ⟨hwidth, hlines⟩ := lineWidth_append (text messages)
      fun d hd ↦ hprinted d (List.mem_of_mem_take (i := i) hd)
    rw [List.length_take_of_le (Nat.le_of_lt hi)] at hwidth
    rw [← hwidth, ← hlines]
    have hsplit : text (messages ++ hexString number :: later) =
        (text messages ++ (hexString number).chars.take i) ++ (hexString number).chars[i] ::
          ((hexString number).chars.drop (i + 1) ++ text later) := by
      rw [htext, List.append_assoc, ← List.cons_append, List.getElem_cons_drop,
        ← List.append_assoc (List.take _ _), List.take_append_drop]
    exact drawnCharacter_writeAll memory al _ hkeeps hsplit hnewline htab (hlines.symm ▸ hpage)
  have hchars : ((List.range (hexString number).length).map fun i ↦
      drawnCharacter (writeAll (efiConsoleInit memory al) (messages ++ hexString number :: later))
        ⟨BitVec.ofNat 64 (lineWidth (text messages) + i),
          BitVec.ofNat 64 (newlines (text messages) % 70)⟩) = (hexString number).chars := by
    apply List.ext_getElem
    · rw [List.length_map, List.length_range]
      rfl
    · intro i hi hi'
      rw [List.getElem_map, List.getElem_range]
      exact hcell i hi'
  rw [hall, hchars]
  exact isNumeral_digitChar (by decide) (by decide)

/-- The number of entries, with a newline behind it. -/
theorem efiConsoleHex_shown_entries :
    ∃ c, efiConsoleHex (writeAll (efiConsoleInit (fun _ ↦ 0) 0)
        [.ofChars "entries: ".toList rfl]) (fun _ ↦ 0xFF) 0x2A = .ok c ∧
      IsNumeral digitValue 16
        ((List.range (hexString 0x2A).length).map fun i ↦
          drawnCharacter (writeAll c [.ofChars "\n".toList rfl])
            ⟨BitVec.ofNat 64 (lineWidth (text [.ofChars "entries: ".toList rfl]) + i),
              BitVec.ofNat 64 (newlines (text [.ofChars "entries: ".toList rfl]) % 70)⟩)
        0x2A :=
  efiConsoleHex_shown (fun _ ↦ 0) 0 [.ofChars "entries: ".toList rfl]
    [.ofChars "\n".toList rfl] (fun _ ↦ 0xFF) 0x2A (keepsToLines_of_length (by decide +kernel))
    (by decide +kernel)

end Hypervi.Loader
