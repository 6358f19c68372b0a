import Rsc.Program
import Rsc.Proofs.Lines

/-!
# Programs in files

The bytes of a text are read back as that text: a first byte says how many bytes are owed and which
values the next of them may have, and every character stays within these bounds. Making every
newline a line feed before the text is cut then changes none of its lines, so that a program in a
file and the same program as a text come to the same.
-/

namespace Rsc

/-! ## Characters read back -/

namespace Utf8

theorem toNat_tail (n : Nat) : (tail n).toNat = 0x80 + n % 64 :=
  UInt8.toNat_ofNat_of_lt' (show 0x80 + n % 64 < 256 by omega)

theorem foldlM_begin (done : Text) {b : Nat} {p : Pending} (hfirst : 0x80 ≤ b) (hlast : b < 0x100)
    (hbegin : begin? b = some p) (rest : Bytes) :
    (UInt8.ofNat b :: rest).foldlM Reader.step ⟨done, none⟩ =
      rest.foldlM Reader.step ⟨done, some p⟩ := by
  have hbyte : (UInt8.ofNat b).toNat = b := UInt8.toNat_ofNat_of_lt' hlast
  have hstep : Reader.step ⟨done, none⟩ (UInt8.ofNat b) = .ok ⟨done, some p⟩ := by
    simp [Reader.step, hbyte, Nat.not_lt.mpr hfirst, hbegin]
  rw [List.foldlM_cons, hstep]
  rfl

/-- A byte that is not the last of its character leaves one byte less to come. -/
theorem foldlM_more (done : Text) {n owed low high : Nat} (hlow : low ≤ 0x80 + n % 64)
    (hhigh : 0x80 + n % 64 ≤ high) (rest : Bytes) :
    (tail n :: rest).foldlM Reader.step ⟨done, some ⟨n / 64, owed + 2, low, high⟩⟩ =
      rest.foldlM Reader.step ⟨done, some ⟨n, owed + 1, 0x80, 0xBF⟩⟩ := by
  have hbits : n / 64 * 64 + (0x80 + n % 64 - 0x80) = n := by omega
  have howed : ¬ owed + 2 ≤ 1 := by omega
  have hstep : Reader.step ⟨done, some ⟨n / 64, owed + 2, low, high⟩⟩ (tail n) =
      .ok ⟨done, some ⟨n, owed + 1, 0x80, 0xBF⟩⟩ := by
    simp only [Reader.step, toNat_tail, hlow, hhigh, and_self, if_true, howed, if_false, hbits,
      Nat.reduceSubDiff]
  rw [List.foldlM_cons, hstep]
  rfl

theorem foldlM_one (done : Text) {n low high : Nat} (hlow : low ≤ 0x80 + n % 64)
    (hhigh : 0x80 + n % 64 ≤ high) :
    [tail n].foldlM Reader.step ⟨done, some ⟨n / 64, 1, low, high⟩⟩ =
      .ok ⟨Char.ofNat n :: done, none⟩ := by
  have hbits : n / 64 * 64 + (0x80 + n % 64 - 0x80) = n := by omega
  have hstep : Reader.step ⟨done, some ⟨n / 64, 1, low, high⟩⟩ (tail n) =
      .ok ⟨Char.ofNat n :: done, none⟩ := by
    simp only [Reader.step, toNat_tail, hlow, hhigh, and_self, if_true, Nat.le_refl, hbits]
  rw [List.foldlM_cons, hstep]
  rfl

theorem foldlM_two (done : Text) {n low high : Nat} (hlow : low ≤ 0x80 + n / 64 % 64)
    (hhigh : 0x80 + n / 64 % 64 ≤ high) :
    [tail (n / 64), tail n].foldlM Reader.step ⟨done, some ⟨n / 4096, 2, low, high⟩⟩ =
      .ok ⟨Char.ofNat n :: done, none⟩ := by
  rw [show n / 4096 = n / 64 / 64 by omega, foldlM_more done hlow hhigh]
  exact foldlM_one done (by omega) (by omega)

theorem foldlM_three (done : Text) {n low high : Nat} (hlow : low ≤ 0x80 + n / 4096 % 64)
    (hhigh : 0x80 + n / 4096 % 64 ≤ high) :
    [tail (n / 4096), tail (n / 64), tail n].foldlM Reader.step
        ⟨done, some ⟨n / 262144, 3, low, high⟩⟩ =
      .ok ⟨Char.ofNat n :: done, none⟩ := by
  rw [show n / 262144 = n / 4096 / 64 by omega, foldlM_more done hlow hhigh,
    show n / 4096 = n / 64 / 64 by omega, foldlM_more done (by omega) (by omega)]
  exact foldlM_one done (by omega) (by omega)

/-- Reading the bytes of a character adds it to the text. -/
theorem foldlM_encodeChar (c : Char) (done : Text) :
    (encodeChar c).foldlM Reader.step ⟨done, none⟩ = .ok ⟨c :: done, none⟩ := by
  have hvalid : c.toNat < 0xD800 ∨ 0xDFFF < c.toNat ∧ c.toNat < 0x110000 := c.valid
  have hchar := Char.ofNat_toNat c
  unfold encodeChar
  generalize c.toNat = n at hvalid hchar
  subst hchar
  dsimp only
  split
  next hone =>
    have hbyte : (UInt8.ofNat n).toNat = n := UInt8.toNat_ofNat_of_lt' (show n < 256 by omega)
    simp [Reader.step, hbyte, hone, pure, Except.pure, bind, Except.bind]
  next =>
    split
    next htwo =>
      have hbegin : begin? (0xC0 + n / 64) = some ⟨n / 64, 1, 0x80, 0xBF⟩ := by
        rw [begin?, if_neg (by omega), if_pos (by omega), Nat.add_sub_cancel_left]
      rw [foldlM_begin done (by omega) (by omega) hbegin]
      exact foldlM_one done (by omega) (by omega)
    next =>
      split
      next hthree =>
        have hbegin : begin? (0xE0 + n / 4096) = some ⟨n / 4096, 2,
            if 0xE0 + n / 4096 = 0xE0 then 0xA0 else 0x80,
            if 0xE0 + n / 4096 = 0xED then 0x9F else 0xBF⟩ := by
          rw [begin?, if_neg (by omega), if_neg (by omega), if_pos (by omega),
            Nat.add_sub_cancel_left]
        rw [foldlM_begin done (by omega) (by omega) hbegin]
        -- the bounds on the second byte keep out overlong forms and surrogates
        apply foldlM_two done
        · split <;> omega
        · split <;> omega
      next hfour =>
        have hbegin : begin? (0xF0 + n / 262144) = some ⟨n / 262144, 3,
            if 0xF0 + n / 262144 = 0xF0 then 0x90 else 0x80,
            if 0xF0 + n / 262144 = 0xF4 then 0x8F else 0xBF⟩ := by
          rw [begin?, if_neg (by omega), if_neg (by omega), if_neg (by omega), if_pos (by omega),
            Nat.add_sub_cancel_left]
        rw [foldlM_begin done (by omega) (by omega) hbegin]
        apply foldlM_three done
        · split <;> omega
        · split <;> omega

/-- The bytes of a text are read as its characters, and nothing is left pending. -/
theorem foldlM_encode (t done : Text) :
    (encode t).foldlM Reader.step ⟨done, none⟩ = .ok ⟨t.reverse ++ done, none⟩ := by
  induction t generalizing done with
  | nil => rfl
  | cons c t ih =>
      have hcons : encode (c :: t) = encodeChar c ++ encode t := rfl
      rw [hcons, List.foldlM_append, foldlM_encodeChar]
      refine (ih (c :: done)).trans ?_
      rw [List.reverse_cons, List.append_assoc, List.singleton_append]

/-- Every text is read back from its bytes. -/
theorem decode_encode (t : Text) : decode (encode t) = .ok t := by
  unfold decode
  rw [foldlM_encode, List.append_nil]
  simp only [bind, Except.bind, List.reverse_reverse]

end Utf8

/-! ## Newlines -/

namespace Text

theorem unifyNewlines_no_return (t : Text) : ∀ c ∈ unifyNewlines t, c ≠ '\r' := by
  intro c hc
  obtain ⟨d, _, rfl⟩ := List.mem_map.mp hc
  split
  next => decide
  next hd => exact hd

/-- A carriage return and a line feed end a line alike. -/
theorem lineStep_unify (c : Char) (lines : List Text) :
    lineStep (if c = '\r' then '\n' else c) lines = lineStep c lines := by
  split
  next hc =>
    subst hc
    rw [lineStep_end (by decide), lineStep_end (by decide)]
  next => rfl

theorem lines_unifyNewlines (t : Text) : lines (unifyNewlines t) = lines t := by
  unfold lines
  rw [mergeReturns_of_no_return (unifyNewlines_no_return t), unifyNewlines, List.foldr_map]
  congr 1
  funext c lines
  exact lineStep_unify c lines

end Text

/-! ## Files -/

/-- The lines of a file are those of the text that it encodes. -/
theorem readLines_encode (t : Text) : readLines (Utf8.encode t) = .ok (Text.lines t) := by
  unfold readLines
  rw [Utf8.decode_encode]
  exact congrArg Except.ok (Text.lines_unifyNewlines t)

/-- A file that holds a text has the lines of the text, and assembles to the same program or fails
in the same way. -/
theorem assembleFile_encode (t : Text) :
    readLines (Utf8.encode t) = .ok (Text.lines t) ∧
      assembleFile (Utf8.encode t) = (assembleText t).mapError FileFailure.program := by
  refine ⟨readLines_encode t, ?_⟩
  unfold assembleFile
  rw [readLines_encode]
  rfl

example : assembleFile (Utf8.encode "NOP\r\r\nHLT\u2028\u00e9\r".toList) =
    .error (.program (.reported ⟨.unknownMnemonic "\u00e9".toList, 4, "\u00e9".toList⟩)) := by
  decide +kernel

end Rsc
