import Rsc.Proofs.Desugaring
import Rsc.Proofs.Operands
import Rsc.Proofs.Relocation

/-!
# The case of letters

Mnemonics, registers, conditions, base markers and digits are read in either case, each by a rule
of its own. Only the names of labels tell capitals from small letters. Texts that differ in the
case of ASCII letters and name no label are therefore the same operand: they pass the same checks
and make the same word under any label table.
-/

namespace Rsc

/-! ## Characters -/

/-- The letters that change in lower case. -/
def capitals : List Char := "ABCDEFGHIJKLMNOPQRSTUVWXYZ".toList

theorem toLower_eq_self_or (c : Char) : c.toLower = c ∨ c ∈ capitals := by
  have hcapitals : ∀ n < 91, 65 ≤ n → Char.ofNat n ∈ capitals := by decide
  by_cases hrange : c.toNat < 65 ∨ 90 < c.toNat
  · exact Or.inl (Char.toLower_eq_self_of_lt hrange)
  · rw [← Char.ofNat_toNat c]
    exact Or.inr (hcapitals c.toNat (by omega) (by omega))

/-- What holds of the capitals holds of all characters, since no other changes. -/
theorem apply_toLower {α : Type} {f : Char → α} (h : ∀ c ∈ capitals, f c.toLower = f c)
    (c : Char) : f c.toLower = f c := by
  rcases toLower_eq_self_or c with hsame | hcapital
  · rw [hsame]
  · exact h c hcapital

theorem isBlank_toLower (c : Char) : Text.isBlank c.toLower = Text.isBlank c :=
  apply_toLower (by decide) c

theorem digitValue?_toLower (c : Char) :
    Numeral.digitValue? c.toLower = Numeral.digitValue? c :=
  apply_toLower (by decide) c

theorem capital_toLower (c : Char) : Text.capital c.toLower = Text.capital c :=
  apply_toLower (by decide) c

/-- The characters below the letters have no other case. -/
theorem toLower_eq_iff {k : Char} (hk : k.toNat < 65) {c : Char} : c.toLower = k ↔ c = k := by
  have hcapitals : ∀ c ∈ capitals, 65 ≤ c.toNat ∧ 65 ≤ c.toLower.toNat := by decide
  rcases toLower_eq_self_or c with hsame | hcapital
  · rw [hsame]
  · obtain ⟨hbefore, hafter⟩ := hcapitals c hcapital
    constructor
    · rintro rfl
      omega
    · rintro rfl
      omega

theorem eq_or_eq_toUpper_of_toLower {k c : Char} (h : c.toLower = k) : c = k ∨ c = k.toUpper := by
  have hcapitals : ∀ c ∈ capitals, c.toLower.toUpper = c := by decide
  rcases toLower_eq_self_or c with hsame | hcapital
  · exact Or.inl (hsame.symm.trans h)
  · rw [← h]
    exact Or.inr (hcapitals c hcapital).symm

/-! ## Texts -/

namespace Text

theorem upper_lower (t : Text) : upper (lower t) = upper t := by
  simp [upper, lower, capital_toLower]

theorem lower_append (s t : Text) : lower (s ++ t) = lower s ++ lower t :=
  List.map_append

theorem lower_reverse (t : Text) : lower t.reverse = (lower t).reverse :=
  List.map_reverse

theorem dropWhile_isBlank_lower (t : Text) :
    (lower t).dropWhile isBlank = lower (t.dropWhile isBlank) := by
  have hblank : isBlank ∘ Char.toLower = isBlank := funext isBlank_toLower
  rw [lower, List.dropWhile_map, hblank, lower]

theorem trim_lower (t : Text) : trim (lower t) = lower (trim t) := by
  simp only [trim, trimLeft, trimRight, dropWhile_isBlank_lower, ← lower_reverse]

/-- A text without letters has no other case. -/
theorem eq_of_lower_eq {s t : Text} (hs : ∀ c ∈ s, c.toNat < 65) (h : lower t = lower s) :
    t = s := by
  induction s generalizing t with
  | nil => exact List.map_eq_nil_iff.mp h
  | cons k s ih =>
      obtain ⟨hk, hs⟩ := List.forall_mem_cons.mp hs
      obtain ⟨c, t, rfl, hc, ht⟩ := List.map_eq_cons_iff.mp h
      rw [(toLower_eq_iff hk).mpr rfl] at hc
      rw [(toLower_eq_iff hk).mp hc, ih hs ht]

/-- Whether a text begins with the label marker does not depend on case. -/
theorem head?_eq_marker_of_lower {t t' : Text} (h : lower t = lower t')
    (hmarker : t.head? = some '.') : t'.head? = some '.' := by
  obtain ⟨t, rfl⟩ := List.head?_eq_some_iff.mp hmarker
  obtain ⟨c, t', rfl, hc, _⟩ := List.map_eq_cons_iff.mp h.symm
  rw [(toLower_eq_iff (by decide)).mp hc]
  rfl

end Text

/-! ## Registers, conditions and literals -/

theorem NamesRegister.of_lower {token token' : Text} {index : Nat} (h : NamesRegister token index)
    (hlower : Text.lower token' = Text.lower token) : NamesRegister token' index := by
  obtain ⟨hlt, letter, tail, hletter, htail, rfl⟩ := h
  obtain ⟨letter', rest, rfl, hletter', hrest⟩ := List.map_eq_cons_iff.mp hlower
  -- behind the letter stand digits and a line feed, which have no other case
  have hplain : ∀ c ∈ Numeral.digits 10 index ++ tail, c.toNat < 65 := by
    intro c hc
    rcases List.mem_append.mp hc with hdigit | hfeed
    · exact toNat_lt_of_isDigit (Numeral.isDigit_of_mem_decimal hdigit)
    · rcases htail with rfl | rfl
      · cases hfeed
      · rw [List.mem_singleton.mp hfeed]
        decide
  refine ⟨hlt, letter', tail, ?_, htail, by rw [Text.eq_of_lower_eq hplain hrest]⟩
  have hsmall : letter.toLower = 'r' := by
    rcases hletter with rfl | rfl <;> rfl
  exact eq_or_eq_toUpper_of_toLower (hletter'.trans hsmall)

theorem registerIndex?_of_lower {token token' : Text}
    (h : Text.lower token = Text.lower token') : registerIndex? token = registerIndex? token' := by
  apply Option.ext
  intro index
  rw [registerIndex?_eq_some_iff, registerIndex?_eq_some_iff]
  exact ⟨fun hnames => hnames.of_lower h.symm, fun hnames => hnames.of_lower h⟩

theorem flagIndex?_of_lower {token token' : Text} (h : Text.lower token = Text.lower token') :
    flagIndex? token = flagIndex? token' := by
  rw [flagIndex?, h, flagIndex?]

namespace Literal

theorem SpellsSign.eq_of_lower {negative : Bool} {sign sign' : Text}
    (h : SpellsSign negative sign) (hlower : Text.lower sign' = Text.lower sign) :
    sign' = sign := by
  apply Text.eq_of_lower_eq _ hlower
  cases h <;> decide

/-- The letter of a base marker may be in either case. -/
theorem exists_letter_of_lower {marker : Text} {letter k : Char} (hletter : letter.toLower = k)
    (h : Text.lower marker = Text.lower ['0', letter]) :
    ∃ letter', (letter' = k ∨ letter' = k.toUpper) ∧ marker = ['0', letter'] := by
  obtain ⟨zero, rest, rfl, hzero, hrest⟩ := List.map_eq_cons_iff.mp h
  obtain ⟨letter', rest, rfl, hletter', hnil⟩ := List.map_eq_cons_iff.mp hrest
  have hzero : zero.toLower = '0' := hzero
  rw [(toLower_eq_iff (by decide)).mp hzero, List.map_eq_nil_iff.mp hnil]
  exact ⟨letter', eq_or_eq_toUpper_of_toLower (hletter'.trans hletter), rfl⟩

theorem SpellsBase.of_lower {base : Nat} {marker marker' : Text} (h : SpellsBase base marker)
    (hlower : Text.lower marker' = Text.lower marker) : SpellsBase base marker' := by
  cases h with
  | @hexadecimal letter hletter =>
      have hsmall : letter.toLower = 'x' := by rcases hletter with rfl | rfl <;> rfl
      obtain ⟨letter', hletter', rfl⟩ := exists_letter_of_lower hsmall hlower
      exact .hexadecimal hletter'
  | @binary letter hletter =>
      have hsmall : letter.toLower = 'b' := by rcases hletter with rfl | rfl <;> rfl
      obtain ⟨letter', hletter', rfl⟩ := exists_letter_of_lower hsmall hlower
      exact .binary hletter'
  | @octal letter hletter =>
      have hsmall : letter.toLower = 'o' := by rcases hletter with rfl | rfl <;> rfl
      obtain ⟨letter', hletter', rfl⟩ := exists_letter_of_lower hsmall hlower
      exact .octal hletter'
  | decimal =>
      obtain rfl := List.map_eq_nil_iff.mp hlower
      exact .decimal

theorem forall₂_spellsDigit_of_lower {base : Nat} (hbase : base ≤ 16) {ds : List Nat}
    {text text' : Text} (h : List.Forall₂ (SpellsDigit base) ds text)
    (hlower : Text.lower text' = Text.lower text) : List.Forall₂ (SpellsDigit base) ds text' := by
  induction h generalizing text' with
  | nil =>
      obtain rfl := List.map_eq_nil_iff.mp hlower
      exact .nil
  | @cons d c ds text hd _ ih =>
      obtain ⟨c', text', rfl, hc, htext⟩ := List.map_eq_cons_iff.mp hlower
      refine .cons ?_ (ih htext)
      rw [spellsDigit_iff hbase, ← digitValue?_toLower, hc, digitValue?_toLower,
        ← spellsDigit_iff hbase]
      exact hd

theorem Spells.of_lower {negative : Bool} {base : Nat} {ds : List Nat} {t t' : Text}
    (h : Spells negative base ds t) (hlower : Text.lower t' = Text.lower t) :
    Spells negative base ds t' := by
  cases h with
  | @intro sign marker digits hsign hmarker hsome hdigits =>
      rw [Text.lower_append, Text.lower_append] at hlower
      obtain ⟨sign', rest, rfl, hsign', hrest⟩ := List.map_eq_append_iff.mp hlower
      obtain ⟨marker', digits', rfl, hmarker', hdigits'⟩ := List.map_eq_append_iff.mp hrest
      rw [hsign.eq_of_lower hsign']
      exact .intro hsign (hmarker.of_lower hmarker') hsome
        (forall₂_spellsDigit_of_lower hmarker.le_sixteen hdigits hdigits')

/-- What is read depends on what is spelt, and on nothing else in the text. -/
theorem read_of_spells_iff {t t' : Text} (h : ∀ negative base ds,
    Spells negative base ds (Text.trim t) ↔ Spells negative base ds (Text.trim t')) :
    read t = read t' := by
  -- the two texts spell the same, so they are too long together, read together or neither
  by_cases hspells : ∃ negative base ds, Spells negative base ds (Text.trim t)
  · obtain ⟨negative, base, ds, ht⟩ := hspells
    have ht' := (h negative base ds).mp ht
    by_cases hlong : base = 10 ∧ Numeral.decimalLimit < ds.length
    · obtain ⟨rfl, hlong⟩ := hlong
      rw [read_eq_error_iff_spells.mpr ⟨negative, ds, ht, hlong, rfl⟩,
        read_eq_error_iff_spells.mpr ⟨negative, ds, ht', hlong, rfl⟩]
    · have hshort : base = 10 → ds.length ≤ Numeral.decimalLimit :=
        fun hbase => Nat.not_lt.mp fun hlength => hlong ⟨hbase, hlength⟩
      rw [read_of_spells ht hshort, read_of_spells ht' hshort]
  · have hnone : ∀ negative base ds, ¬ Spells negative base ds (Text.trim t) :=
      fun negative base ds ht => hspells ⟨negative, base, ds, ht⟩
    have hnone' : ∀ negative base ds, ¬ Spells negative base ds (Text.trim t') :=
      fun negative base ds ht' => hnone negative base ds ((h negative base ds).mpr ht')
    rw [read_eq_none_iff.mpr hnone, read_eq_none_iff.mpr hnone']

/-- Literals are read in any case. -/
theorem read_of_lower {t t' : Text} (h : Text.lower t = Text.lower t') : read t = read t' := by
  have htrim : Text.lower (Text.trim t) = Text.lower (Text.trim t') := by
    rw [← Text.trim_lower, h, Text.trim_lower]
  apply read_of_spells_iff
  intro negative base ds
  exact ⟨fun ht => ht.of_lower htrim.symm, fun ht' => ht'.of_lower htrim⟩

end Literal

/-! ## Fields -/

/-- A field takes a token that is no label in any case, with the same value. -/
theorem Field.alike_of_lower {token token' : Text} (h : Text.lower token = Text.lower token')
    (hmarker : token.head? ≠ some '.') (labels : LabelTable) (field : Field) :
    field.check labels token = field.check labels token' ∧
      field.value labels token = field.value labels token' := by
  have hread := Literal.read_of_lower h
  cases field with
  | register =>
      have hindex := registerIndex?_of_lower h
      simp only [check, value, encode, hindex, hread, and_self]
  | unsigned size => simp only [check, value, encode, hread, and_self]
  | signed size strict => simp only [check, value, encode, hread, and_self]
  | blank size => exact ⟨rfl, rfl⟩
  | address =>
      have hmarker' : token'.head? ≠ some '.' :=
        fun hhead => hmarker (Text.head?_eq_marker_of_lower h.symm hhead)
      rw [check_address_of_no_marker hmarker, check_address_of_no_marker hmarker', checkWithin,
        checkWithin, hread, value, encode_address_of_no_marker hmarker, hread, value,
        encode_address_of_no_marker hmarker']
      exact ⟨rfl, rfl⟩
  | flag =>
      have hindex := flagIndex?_of_lower h
      simp only [check, value, encode, hread, hindex, and_self]

/-- The operands differ in the case of letters at most, and not at all if they name a label. -/
def Recased (token token' : Text) : Prop :=
  token = token' ∨ token.head? ≠ some '.' ∧ Text.lower token = Text.lower token'

namespace Recased

theorem symm {token token' : Text} (h : Recased token token') : Recased token' token := by
  rcases h with rfl | ⟨hmarker, hlower⟩
  · exact Or.inl rfl
  · refine Or.inr ⟨?_, hlower.symm⟩
    exact fun hhead => hmarker (Text.head?_eq_marker_of_lower hlower.symm hhead)

/-- No field tells recased tokens apart. -/
theorem alike {token token' : Text} (h : Recased token token') (labels : LabelTable)
    (field : Field) :
    field.check labels token = field.check labels token' ∧
      field.value labels token = field.value labels token' := by
  rcases h with rfl | ⟨hmarker, hlower⟩
  · exact ⟨rfl, rfl⟩
  · exact Field.alike_of_lower hlower hmarker labels field

end Recased

/-! ## Instructions -/

/-- Fields that take no operand play no part in a check. -/
theorem checkOperands_filter (labels : LabelTable) (fields : List Field) (operands : List Text) :
    checkOperands labels (fields.filter Field.takesOperand) operands =
      checkOperands labels fields operands := by
  simp only [checkOperands, List.filter_filter, Bool.and_self]

/-- Recased operands pass the same checks. -/
theorem checkOperands_of_recased {labels : LabelTable} {fields : List Field}
    {operands operands' : List Text} (h : List.Forall₂ Recased operands operands')
    (hcheck : checkOperands labels fields operands = .ok none) :
    checkOperands labels fields operands' = .ok none := by
  have htakes : ∀ field ∈ fields.filter Field.takesOperand, field.takesOperand = true :=
    fun field hfield => (List.mem_filter.mp hfield).2
  rw [← checkOperands_filter, checkOperands_iff_forall₂ htakes] at hcheck ⊢
  refine (forall₂_transfer h hcheck.flip ?_).flip
  intro token token' field hrecased hpasses
  exact (hrecased.alike labels field).1.symm.trans hpasses

theorem Slot.agree_fill {operands operands' : List Text}
    (h : List.Forall₂ Recased operands operands') (slot : Slot) :
    Agree Eq Recased (slot.fill operands) (slot.fill operands') := by
  cases slot with
  | fixed token => exact .ok (Or.inl rfl)
  | operand index =>
      induction h generalizing index with
      | nil => exact .error rfl
      | cons hhead _ ih =>
          cases index with
          | zero => exact .ok hhead
          | succ index => exact ih index

/-- Recased operands have the same word. -/
theorem Instruction.encode_of_recased (i : Instruction) (labels : LabelTable)
    {operands operands' : List Text} (h : List.Forall₂ Recased operands operands') :
    i.encode labels operands = i.encode labels operands' := by
  have hpack : ∀ (b : BaseInstruction) {tokens tokens' : List Text},
      List.Forall₂ Recased tokens tokens' → b.encode labels tokens = b.encode labels tokens' := by
    intro b tokens tokens' htokens
    apply pack_of_same_values
    exact htokens.imp fun _ _ hrecased field _ => (hrecased.alike labels field).2
  cases i with
  | base b => exact hpack b h
  | shorthand s =>
      have hagree : Agree Eq (List.Forall₂ Recased) (s.expand operands) (s.expand operands') := by
        apply Agree.mapM (List.forall₂_same.mpr fun _ _ => rfl)
        rintro slot _ rfl
        exact slot.agree_fill h
      unfold encode Shorthand.encode
      dsimp only
      generalize s.expand operands = expanded at hagree
      generalize s.expand operands' = expanded' at hagree
      cases hagree with
      | ok htokens => exact hpack s.base htokens
      | error hfault => rw [hfault]

/-! ## Words under any table -/

/-- An operand that passes has a value, even where labels are bound to negative addresses. -/
theorem Field.exists_value_of_check {field : Field} (hsize : field.WellSized) {labels : LabelTable}
    {token : Text} (hcheck : field.check labels token = .ok none) :
    ∃ v, field.value labels token = .ok v := by
  by_cases hlabel : field = address ∧ token.head? = some '.'
  · obtain ⟨rfl, hmarker⟩ := hlabel
    obtain ⟨name, rfl⟩ := List.head?_eq_some_iff.mp hmarker
    obtain ⟨target, hfind, _⟩ := check_address_label_iff.mp hcheck
    exact ⟨target, value_address_label hfind⟩
  · -- no label is looked up, so the empty table does as well
    have hcongr : field.check labels token = field.check [] token ∧
        field.value labels token = field.value [] token := by
      by_cases hfield : field = address
      · exact congr_of_no_marker (fun hmarker => hlabel ⟨hfield, hmarker⟩) field labels []
      · exact ⟨check_congr hfield labels [] token, value_congr hfield labels [] token⟩
    rw [hcongr.1] at hcheck
    rw [hcongr.2]
    obtain ⟨v, hvalue, _⟩ := value_of_check hsize (by simp) hcheck
    exact ⟨v, hvalue⟩

theorem exists_pack_of_check {labels : LabelTable} {fields : List Field}
    (hsizes : ∀ field ∈ fields, field.WellSized) {operands : List Text}
    (hcheck : checkOperands labels fields operands = .ok none) (code : Int) {room : Nat}
    (hroom : totalWidth fields ≤ room) :
    ∃ word, pack labels fields operands code room = .ok word := by
  -- the values need not fit: only the room that is left must not run out
  induction fields generalizing operands code room with
  | nil =>
      rw [pack, Bits.shiftLeft, Bits.width_natCast]
      exact ⟨_, rfl⟩
  | cons field fields ih =>
      obtain ⟨hsize, hsizes⟩ := List.forall_mem_cons.mp hsizes
      rw [totalWidth_cons] at hroom
      have hhere : field.size.toNat ≤ room := Nat.le_trans (Nat.le_add_right _ _) hroom
      have hthere : totalWidth fields ≤ room - field.size.toNat := Nat.le_sub_of_add_le' hroom
      cases htakes : field.takesOperand with
      | true =>
          cases operands with
          | nil =>
              have hlength := (checkOperands_eq_none_iff.mp hcheck).1
              simp [htakes] at hlength
          | cons token operands =>
              obtain ⟨htoken, hrest⟩ := (checkOperands_cons_operand htakes).mp hcheck
              obtain ⟨v, hvalue⟩ := Field.exists_value_of_check hsize htoken
              rw [pack_operand htakes hsize hvalue, natCast_sub_size hsize hhere]
              exact ih hsizes hrest _ hthere
      | false =>
          rw [pack_reserved htakes hsize, natCast_sub_size hsize hhere]
          exact ih hsizes ((checkOperands_cons_reserved htakes).mp hcheck) _ hthere

theorem Instruction.exists_word_of_check {i : Instruction} (hmem : i ∈ Catalog.all)
    {labels : LabelTable} {operands : List Text} (hcheck : i.check labels operands = .ok none) :
    ∃ word, i.encode labels operands = .ok word := by
  rcases List.mem_append.mp hmem with hbase | hshorthand
  · obtain ⟨b, hb, rfl⟩ := List.mem_map.mp hbase
    obtain ⟨hsizes, hwidth⟩ := Catalog.base_wellSized b hb
    exact exists_pack_of_check hsizes hcheck b.opcode hwidth
  · obtain ⟨s, hs, rfl⟩ := List.mem_map.mp hshorthand
    -- shorthands stand for no jumps
    have hkind := Catalog.address_only_in_jumps _ hmem
    simp only [reduceCtorEq, false_or] at hkind
    rw [check_congr hkind.1 labels []] at hcheck
    rw [encode_congr hkind.2 labels []]
    exact encode_of_check (by simp) hmem hcheck

/-- The case of ASCII letters matters to labels only. Mnemonics that differ in it name the same
instruction. Operands that differ in it and name no label pass the check of an instruction
together, whatever the label table, and then both make its word. -/
theorem letter_case_irrelevant :
    (∀ mnemonic mnemonic', Text.lower mnemonic = Text.lower mnemonic' →
      Catalog.lookup mnemonic = Catalog.lookup mnemonic') ∧
    ∀ i ∈ Catalog.all, ∀ (labels : LabelTable) (operands operands' : List Text),
      List.Forall₂ Recased operands operands' →
      (i.check labels operands = .ok none ↔ i.check labels operands' = .ok none) ∧
      (i.check labels operands = .ok none →
        ∃ word, i.encode labels operands = .ok word ∧ i.encode labels operands' = .ok word) := by
  refine ⟨?_, ?_⟩
  · intro mnemonic mnemonic' hlower
    rw [Catalog.lookup, ← Text.upper_lower, hlower, Text.upper_lower, Catalog.lookup]
  · intro i hmem labels operands operands' h
    have hback : List.Forall₂ Recased operands' operands := h.flip.imp fun _ _ => Recased.symm
    refine ⟨⟨checkOperands_of_recased h, checkOperands_of_recased hback⟩, ?_⟩
    intro hcheck
    obtain ⟨word, hword⟩ := Instruction.exists_word_of_check hmem hcheck
    exact ⟨word, hword, (i.encode_of_recased labels h).symm.trans hword⟩

/-- A branch on a condition and to a number in hexadecimal. -/
theorem letter_case_irrelevant_branch :
    Catalog.lookup "bRc".toList = Catalog.lookup "BRC".toList ∧
      ∃ word, (Instruction.base Catalog.brc).encode [] ["nZ".toList, "0xfF".toList] = .ok word ∧
        (Instruction.base Catalog.brc).encode [] ["NZ".toList, "0XFf".toList] = .ok word := by
  obtain ⟨hlookup, hoperands⟩ := letter_case_irrelevant
  refine ⟨hlookup _ _ (by decide), ?_⟩
  have hrecased : List.Forall₂ Recased ["nZ".toList, "0xfF".toList] ["NZ".toList, "0XFf".toList] :=
    .cons (Or.inr (by decide)) (.cons (Or.inr (by decide)) .nil)
  exact (hoperands _ (by decide) [] _ _ hrecased).2 (by decide)

end Rsc
