import Rsc.Proofs.Assembly

/-!
# Where jumps go

The word of a jump is made of a part that its target has no say in and, in the low ten bits, the
target. A target that is a label is the number of instructions before the one line that defines
it, wherever that line stands; a target that is a literal is its number.
-/

namespace Rsc

/-- The operand that a jump takes its target from: the one operand of `JMP`, the second of `BRC`,
in any case. -/
def jumpOperand? : List Text → Option Text
  | [mnemonic, target] => if Text.upper mnemonic = "JMP".toList then some target else none
  | [mnemonic, _, target] => if Text.upper mnemonic = "BRC".toList then some target else none
  | _ => none

/-! ## The words of jumps -/

/-- The word of a line is that of its instruction, if its operands pass. -/
theorem lineEncodes_iff_of_tokens {labels : LabelTable} {line : Line} {mnemonic : Text}
    {operands : List Text} {instruction : Instruction} {word : Int}
    (htokens : Text.tokens line.text = mnemonic :: operands)
    (hlookup : Catalog.lookup mnemonic = some instruction) :
    LineEncodes labels line word ↔
      instruction.check labels operands = .ok none ∧
        instruction.encode labels operands = .ok word := by
  constructor
  · rintro ⟨mnemonic', operands', instruction', htokens', hlookup', hcheck, hencode⟩
    obtain ⟨rfl, rfl⟩ := List.cons.inj (htokens.symm.trans htokens')
    obtain rfl := Option.some.inj (hlookup.symm.trans hlookup')
    exact ⟨hcheck, hencode⟩
  · rintro ⟨hcheck, hencode⟩
    exact ⟨mnemonic, operands, instruction, htokens, hlookup, hcheck, hencode⟩

/-- The operand of `JMP` is checked as a target. -/
theorem check_jmp_iff {labels : LabelTable} {target : Text} :
    (Instruction.base Catalog.jmp).check labels [target] = .ok none ↔
      Field.address.check labels target = .ok none := by
  have htaking : (Instruction.base Catalog.jmp).fields.filter Field.takesOperand = [.address] := rfl
  rw [Instruction.check, checkOperands_eq_none_iff, operandPairs, htaking]
  simp

/-- The operands of `BRC` are checked as a condition and a target. -/
theorem check_brc_iff {labels : LabelTable} {condition target : Text} :
    (Instruction.base Catalog.brc).check labels [condition, target] = .ok none ↔
      Field.flag.check labels condition = .ok none ∧
        Field.address.check labels target = .ok none := by
  have htaking : (Instruction.base Catalog.brc).fields.filter Field.takesOperand =
      [.flag, .address] := rfl
  rw [Instruction.check, checkOperands_eq_none_iff, operandPairs, htaking]
  simp

/-- The word of `JMP` has the target in its low ten bits. -/
theorem encode_jmp {labels : LabelTable} {target : Text} {v : Int}
    (hvalue : Field.address.value labels target = .ok v) (hnonneg : 0 ≤ v)
    (hfits : v < Field.address.capacity) :
    (Instruction.base Catalog.jmp).encode labels [target] = .ok (40 * 1024 + v) := by
  have hfills : Fills labels Catalog.jmp.fields [target] [0, v] :=
    .reserved rfl (by decide) (.operand rfl (by decide) hvalue hnonneg hfits .nil)
  refine (Catalog.jmp.encode_of_fills (by decide) hfills).trans (congrArg Except.ok ?_)
  change 10 * 4096 + (0 * 1024 + (v * 1 + 0)) = 40 * 1024 + v
  omega

/-- The word of `BRC` has the condition above the target. -/
theorem encode_brc {labels : LabelTable} {condition target : Text} {f v : Int}
    (hflag : Field.flag.value labels condition = .ok f) (hflagNonneg : 0 ≤ f)
    (hflagFits : f < Field.flag.capacity) (hvalue : Field.address.value labels target = .ok v)
    (hnonneg : 0 ≤ v) (hfits : v < Field.address.capacity) :
    (Instruction.base Catalog.brc).encode labels [condition, target] =
      .ok ((44 + f) * 1024 + v) := by
  have hfills : Fills labels Catalog.brc.fields [condition, target] [f, v] :=
    .operand rfl (by decide) hflag hflagNonneg hflagFits
      (.operand rfl (by decide) hvalue hnonneg hfits .nil)
  refine (Catalog.brc.encode_of_fills (by decide) hfills).trans (congrArg Except.ok ?_)
  change 11 * 4096 + (f * 1024 + (v * 1 + 0)) = (44 + f) * 1024 + v
  omega

theorem jumpOperand?_eq_some {tokens : List Text} {target : Text}
    (h : jumpOperand? tokens = some target) :
    (∃ mnemonic, tokens = [mnemonic, target] ∧ Text.upper mnemonic = "JMP".toList) ∨
      ∃ mnemonic condition, tokens = [mnemonic, condition, target] ∧
        Text.upper mnemonic = "BRC".toList := by
  unfold jumpOperand? at h
  split at h
  next mnemonic operand =>
    split at h
    next hmnemonic =>
      obtain rfl := Option.some.inj h
      exact Or.inl ⟨mnemonic, rfl, hmnemonic⟩
    next => cases h
  next mnemonic condition operand =>
    split at h
    next hmnemonic =>
      obtain rfl := Option.some.inj h
      exact Or.inr ⟨mnemonic, condition, rfl, hmnemonic⟩
    next => cases h
  next => cases h

/-- The word of a jump, put together from the value of its target. -/
theorem ok_eq_iff_of_value {labels : LabelTable} {target : Text} {v : Int}
    (hvalue : Field.address.value labels target = .ok v) (hnonneg : 0 ≤ v) (hfits : v < 1024)
    (high word : Int) :
    (Except.ok (high * 1024 + v) : Except Fault Int) = .ok word ↔
      ∃ v, Field.address.value labels target = .ok v ∧ 0 ≤ v ∧ v < 1024 ∧
        word = high * 1024 + v := by
  constructor
  · intro h
    exact ⟨v, hvalue, hnonneg, hfits, (Except.ok.inj h).symm⟩
  · rintro ⟨v', hvalue', _, _, rfl⟩
    rw [Except.ok.inj (hvalue.symm.trans hvalue')]

/-- The target of a jump that passes the check has a value, and its word ends in that value. What
stands above the target is the same under every table. -/
theorem exists_high_of_jump {labels₀ : LabelTable} (hlabels₀ : ∀ entry ∈ labels₀, 0 ≤ entry.2)
    {line : Line} {word₀ : Int} (hencodes : LineEncodes labels₀ line word₀) {target : Text}
    (hjump : jumpOperand? (Text.tokens line.text) = some target) :
    ∃ high, ∀ labels, (∀ entry ∈ labels, 0 ≤ entry.2) → ∀ word,
      LineEncodes labels line word ↔
        Field.address.check labels target = .ok none ∧
          ∃ v, Field.address.value labels target = .ok v ∧ 0 ≤ v ∧ v < 1024 ∧
            word = high * 1024 + v := by
  rcases jumpOperand?_eq_some hjump with
    ⟨mnemonic, htokens, hmnemonic⟩ | ⟨mnemonic, condition, htokens, hmnemonic⟩
  · have hlookup : Catalog.lookup mnemonic = some (.base Catalog.jmp) :=
      Catalog.lookup_eq_some_iff.mpr ⟨by decide, hmnemonic.symm⟩
    refine ⟨40, fun labels hlabels word => ?_⟩
    rw [lineEncodes_iff_of_tokens htokens hlookup, check_jmp_iff]
    refine and_congr_right fun hcheck => ?_
    obtain ⟨v, hvalue, hnonneg, hfits⟩ := Field.value_of_check (by decide) hlabels hcheck
    rw [encode_jmp hvalue hnonneg hfits]
    exact ok_eq_iff_of_value hvalue hnonneg hfits 40 word
  · have hlookup : Catalog.lookup mnemonic = some (.base Catalog.brc) :=
      Catalog.lookup_eq_some_iff.mpr ⟨by decide, hmnemonic.symm⟩
    rw [lineEncodes_iff_of_tokens htokens hlookup, check_brc_iff] at hencodes
    -- A condition does not look at the table, so its value under this one serves for all.
    obtain ⟨f, hflag, hflagNonneg, hflagFits⟩ :=
      Field.value_of_check (by decide) hlabels₀ hencodes.1.1
    have hcondition := hencodes.1.1
    refine ⟨44 + f, fun labels hlabels word => ?_⟩
    rw [lineEncodes_iff_of_tokens htokens hlookup, check_brc_iff,
      Field.check_congr (by decide) labels labels₀ condition, and_iff_right hcondition]
    refine and_congr_right fun hcheck => ?_
    rw [Field.value_congr (by decide) labels₀ labels] at hflag
    obtain ⟨v, hvalue, hnonneg, hfits⟩ := Field.value_of_check (by decide) hlabels hcheck
    rw [encode_brc hflag hflagNonneg hflagFits hvalue hnonneg hfits]
    exact ok_eq_iff_of_value hvalue hnonneg hfits (44 + f) word

theorem low_ten_of_jump {high v : Int} (hnonneg : 0 ≤ v) (hfits : v < 1024) :
    Bits.low 10 (high * 1024 + v) = v := by
  rw [Bits.low_eq_emod]
  change (high * 1024 + v) % 1024 = v
  omega

/-! ## The targets of jumps -/

theorem value_address_of_literal {labels : LabelTable} {t : Text} {l : Literal} {v : Int}
    (htext : Literal.ofText? t = some l) (hblank : ∀ c ∈ t, Text.isBlank c = false)
    (hvalue : Field.address.value labels t = .ok v) : v = l.value := by
  rw [Field.value_eq_ok_iff,
    Field.encode_address_of_no_marker (head?_ne_marker_of_ofText? htext)] at hvalue
  rw [← Text.trim_of_no_blank hblank] at htext
  exact Option.some.inj (Literal.eq_value_of_read htext hvalue)

/-- Jumps go where they say. In the word of a jump at any address of a program, the low ten bits
are, for a target that names a label, the number of instructions that the source lines before its
one definition carry, and for a literal target the literal. -/
theorem jump_target {raw : List Text} {p : Program} (h : assemble raw = .ok p) {i : Nat}
    (hi : i < p.words.length) :
    ∃ line, (sourceInstructions raw)[i]? = some line ∧
      p.listing[i]?.map Entry.source = some line ∧
      ∀ target, jumpOperand? (Text.tokens line.text) = some target →
        (∀ name, target = '.' :: name →
          ∃ k definer, (cleanLines raw)[k]? = some definer ∧ definer.name? = some name ∧
            (∀ j other, (cleanLines raw)[j]? = some other → other.name? = some name → j = k) ∧
            Bits.low 10 p.words[i] = (((cleanLines raw).take k).countP Line.carries : Nat) ∧
            Bits.low 10 p.words[i] ≤ p.words.length ∧ Bits.low 10 p.words[i] ≤ 1023) ∧
        ∀ literal, Literal.ofText? target = some literal →
          Bits.low 10 p.words[i] = literal.value := by
  obtain ⟨line, hline, hencodes⟩ := lineEncodes_of_assemble h hi
  have hlisted : p.listing[i]?.map Entry.source = some line := by
    rw [← List.getElem?_map, sources_listing h, hline]
  refine ⟨line, hline, hlisted, fun target hjump => ?_⟩
  obtain ⟨high, hhigh⟩ := exists_high_of_jump nonneg_of_mem_sourceLabels hencodes hjump
  obtain ⟨hcheck, v, hvalue, hnonneg, hfits, hword⟩ :=
    (hhigh _ nonneg_of_mem_sourceLabels _).mp hencodes
  rw [hword, low_ten_of_jump hnonneg hfits]
  constructor
  · rintro name rfl
    obtain ⟨address, hfind, hle⟩ := Field.check_address_label_iff.mp hcheck
    obtain rfl := Except.ok.inj (hvalue.symm.trans (Field.value_address_label hfind))
    obtain ⟨hsound, _, _, _, _⟩ := assemble_eq_ok_iff.mp h
    obtain ⟨k, definer, hget, hname, hunique, hcount⟩ := hsound.exists_definer hfind
    have hbound := (bounds_of_mem_sourceLabels (LabelTable.mem_of_find? hfind)).2
    rw [← length_words h] at hbound
    exact ⟨k, definer, hget, hname, hunique, hcount, hbound, hle⟩
  · intro literal htext
    have hmem : target ∈ Text.tokens line.text := by
      rcases jumpOperand?_eq_some hjump with ⟨_, htokens, _⟩ | ⟨_, _, htokens, _⟩ <;> simp [htokens]
    exact value_address_of_literal htext (Text.mem_tokens hmem).2 hvalue

/-- A forward jump over a comment and a blank line, to a label that shares its line with a jump
back. -/
def forwardJump : List Text :=
  [".top NOP".toList, "  jmp .end  # on".toList, [], ".end Brc nz .top".toList]

theorem jump_target_forward :
    assemble forwardJump =
        .ok ⟨[("top".toList, 0), ("end".toList, 2)],
          [⟨0, 0, ⟨1, "NOP".toList⟩⟩, ⟨1, 40962, ⟨2, "jmp .end".toList⟩⟩,
            ⟨2, 46080, ⟨4, "Brc nz .top".toList⟩⟩]⟩ ∧
      ∃ k definer, (cleanLines forwardJump)[k]? = some definer ∧
        definer.name? = some "end".toList ∧
        Bits.low 10 40962 = (((cleanLines forwardJump).take k).countP Line.carries : Nat) := by
  have hrun : assemble forwardJump =
      .ok ⟨[("top".toList, 0), ("end".toList, 2)],
        [⟨0, 0, ⟨1, "NOP".toList⟩⟩, ⟨1, 40962, ⟨2, "jmp .end".toList⟩⟩,
          ⟨2, 46080, ⟨4, "Brc nz .top".toList⟩⟩]⟩ := by decide
  refine ⟨hrun, ?_⟩
  obtain ⟨line, hline, _, htargets⟩ := jump_target hrun (i := 1) (by decide)
  obtain rfl : line = ⟨2, "jmp .end".toList⟩ :=
    Option.some.inj (hline.symm.trans (by decide))
  obtain ⟨k, definer, hget, hname, _, hlow, _⟩ :=
    (htargets ".end".toList (by decide)).1 "end".toList rfl
  exact ⟨k, definer, hget, hname, hlow⟩

end Rsc
