import Mathlib.Data.List.Basic
import Mathlib.Data.List.Induction
import Mathlib.Data.List.TakeWhile
import Rsc.Text.Basic

/-!
# Tokens and blanks

The tokens of a text are determined by its blanks alone: cutting a text at a blank cuts its
tokens in two, so blanks at either end never matter.
-/

namespace Rsc.Text

-- Conditions on the characters of a text are decided one by one, never by going through all
-- characters there are.
instance decidableForallMem (t : Text) (P : Char → Prop) [DecidablePred P] :
    Decidable (∀ c ∈ t, P c) :=
  List.decidableBAll P t

instance decidableForallMemOption (found : Option Char) (P : Char → Prop) [DecidablePred P] :
    Decidable (∀ c ∈ found, P c) :=
  decidable_of_iff (∀ c ∈ found.toList, P c) (by simp)

theorem pieces_append_cut (cut : Char → Bool) {c : Char} (hc : cut c = true) (first second : Text) :
    pieces cut (first ++ c :: second) = pieces cut first ++ pieces cut second := by
  induction first with
  | nil => simp [pieces, split_cons, hc]
  | cons d first ih =>
      simp only [pieces, List.cons_append, List.cons.injEq] at ih
      obtain ⟨hhead, htail⟩ := ih
      by_cases hd : cut d = true
      · simp [pieces, split_cons, hd, hhead, htail]
      · simp [pieces, split_cons, hd, hhead, htail]

/-- A blank cuts tokens apart. -/
theorem tokens_append_blank {c : Char} (hc : isBlank c = true) (first second : Text) :
    tokens (first ++ c :: second) = tokens first ++ tokens second := by
  unfold tokens
  rw [pieces_append_cut isBlank hc, List.filter_append]

@[simp] theorem tokens_cons_blank {c : Char} (hc : isBlank c = true) (t : Text) :
    tokens (c :: t) = tokens t := by
  simpa using tokens_append_blank hc [] t

theorem tokens_trimLeft (t : Text) : tokens (trimLeft t) = tokens t := by
  induction t with
  | nil => rfl
  | cons c t ih =>
      by_cases hc : isBlank c = true
      · rw [tokens_cons_blank hc, ← ih]
        simp [trimLeft, hc]
      · simp [trimLeft, hc]

theorem tokens_trimRight (t : Text) : tokens (trimRight t) = tokens t := by
  induction t using List.reverseRecOn with
  | nil => rfl
  | append_singleton t c ih =>
      by_cases hc : isBlank c = true
      · rw [tokens_append_blank hc t [], tokens_nil, List.append_nil, ← ih]
        simp [trimRight, hc]
      · simp [trimRight, hc]

/-- Blanks around a text belong to no token. -/
@[simp] theorem tokens_trim (t : Text) : tokens (trim t) = tokens t := by
  rw [trim, tokens_trimRight, tokens_trimLeft]

theorem split_of_no_cut {cut : Char → Bool} {t : Text} (ht : ∀ c ∈ t, cut c = false) :
    split cut t = (t, []) := by
  induction t with
  | nil => rfl
  | cons c t ih =>
      rw [split_cons, ih fun d hd => ht d (List.mem_cons_of_mem _ hd)]
      simp [ht c List.mem_cons_self]

theorem tokens_of_no_blank {t : Text} (ht : ∀ c ∈ t, isBlank c = false) (hne : t ≠ []) :
    tokens t = [t] := by
  have hsome : t.isEmpty = false := by simpa using hne
  simp [tokens, pieces, split_of_no_cut ht, hsome]

/-- A token that stands in front is followed by the tokens after it. -/
theorem tokens_run {run rest : Text} (hrun : ∀ c ∈ run, isBlank c = false) (hne : run ≠ [])
    (hrest : ∀ c ∈ rest.head?, isBlank c = true) : tokens (run ++ rest) = run :: tokens rest := by
  cases rest with
  | nil => rw [List.append_nil, tokens_of_no_blank hrun hne, tokens_nil]
  | cons c rest =>
      have hc : isBlank c = true := hrest c rfl
      rw [tokens_append_blank hc, tokens_of_no_blank hrun hne, tokens_cons_blank hc,
        List.singleton_append]

/-- A text that begins with no blank begins with a word, which ends at a blank. -/
theorem word_of_head {t : Text} (hne : t ≠ []) (hhead : ∀ c ∈ t.head?, isBlank c = false) :
    t.takeWhile (fun c => !isBlank c) ≠ [] ∧
      (∀ c ∈ t.takeWhile fun c => !isBlank c, isBlank c = false) ∧
      ∀ c ∈ (t.dropWhile fun c => !isBlank c).head?, isBlank c = true := by
  refine ⟨?_, ?_, ?_⟩
  · obtain ⟨c, t, rfl⟩ := List.exists_cons_of_ne_nil hne
    simp [hhead c rfl]
  · intro c hc
    simpa using List.mem_takeWhile_imp hc
  · intro c hc
    have hstop := List.head?_dropWhile_not (fun c => !isBlank c) t
    rw [hc] at hstop
    simpa using hstop

/-- The first token of a text that begins with one is everything up to the first blank. -/
theorem tokens_cons_of_not_blank {c : Char} (hc : isBlank c = false) (t : Text) :
    tokens (c :: t) =
      (c :: t).takeWhile (fun d => !isBlank d) ::
        tokens ((c :: t).dropWhile fun d => !isBlank d) := by
  obtain ⟨hne, hword, hrest⟩ := word_of_head (List.cons_ne_nil c t) fun d hd => by
    obtain rfl := Option.some.inj hd
    exact hc
  rw [← tokens_run hword hne hrest, List.takeWhile_append_dropWhile]

/-- There are no tokens if everything is blank. -/
theorem tokens_eq_nil_iff {t : Text} : tokens t = [] ↔ ∀ c ∈ t, isBlank c = true := by
  induction t with
  | nil => simp
  | cons c t ih =>
      by_cases hc : isBlank c = true
      · rw [tokens_cons_blank hc, ih]
        simp [hc]
      · rw [tokens_cons_of_not_blank (by simpa using hc)]
        simp [hc]

theorem trimLeft_eq_nil_iff {t : Text} : trimLeft t = [] ↔ tokens t = [] := by
  rw [tokens_eq_nil_iff]
  simp [trimLeft]

/-- Trimming leaves nothing if there are no tokens. -/
theorem trim_eq_nil_iff {t : Text} : trim t = [] ↔ tokens t = [] := by
  rw [← trimLeft_eq_nil_iff]
  constructor
  · intro h
    rw [trimLeft_eq_nil_iff, ← tokens_trimLeft, ← tokens_trimRight]
    exact congrArg tokens h
  · intro h
    simp [trim, h, trimRight]

/-- A token is not empty and has no blank in it. -/
theorem mem_tokens {t token : Text} (h : token ∈ tokens t) :
    token ≠ [] ∧ ∀ c ∈ token, isBlank c = false := by
  suffices hpieces : ∀ piece ∈ pieces isBlank t, ∀ c ∈ piece, isBlank c = false by
    obtain ⟨hpiece, hne⟩ := List.mem_filter.mp h
    exact ⟨by simpa using hne, hpieces token hpiece⟩
  clear h
  induction t with
  | nil => simp [pieces]
  | cons c t ih =>
      simp only [pieces, List.forall_mem_cons] at ih ⊢
      by_cases hc : isBlank c = true
      · simpa [split_cons, hc] using ih
      · simpa [split_cons, hc] using ih

theorem head?_trim {c : Char} {t : Text} (hc : isBlank c = false) :
    (trim (c :: t)).head? = some c := by
  have hleft : trimLeft (c :: t) = c :: t := by simp [trimLeft, hc]
  have hne : trim (c :: t) ≠ [] := by
    rw [ne_eq, trim_eq_nil_iff, tokens_cons_of_not_blank hc]
    simp
  have hpre : trim (c :: t) <+: c :: t := by
    rw [trim, hleft, trimRight, ← List.reverse_suffix, List.reverse_reverse]
    exact List.dropWhile_suffix _
  obtain ⟨after, hafter⟩ := hpre
  have hhead := congrArg List.head? hafter
  rwa [List.head?_append_of_ne_nil _ hne] at hhead

/-! ## Trimmed texts -/

theorem trimLeft_eq_self {t : Text} (h : ∀ c ∈ t.head?, isBlank c = false) : trimLeft t = t := by
  cases t with
  | nil => rfl
  | cons c t => simp [trimLeft, h c rfl]

theorem trimRight_eq_self {t : Text} (h : ∀ c ∈ t.getLast?, isBlank c = false) :
    trimRight t = t := by
  rw [← List.head?_reverse] at h
  have hreverse : trimLeft t.reverse = t.reverse := trimLeft_eq_self h
  change (trimLeft t.reverse).reverse = t
  rw [hreverse, List.reverse_reverse]

theorem trim_eq_self {t : Text} (hhead : ∀ c ∈ t.head?, isBlank c = false)
    (hlast : ∀ c ∈ t.getLast?, isBlank c = false) : trim t = t := by
  rw [trim, trimLeft_eq_self hhead, trimRight_eq_self hlast]

theorem trim_of_no_blank {t : Text} (ht : ∀ c ∈ t, isBlank c = false) : trim t = t := by
  apply trim_eq_self
  · exact fun c hc => ht c (List.mem_of_mem_head? hc)
  · exact fun c hc => ht c (List.mem_of_mem_getLast? hc)

theorem trimLeft_blank_append {lead : Text} (h : ∀ c ∈ lead, isBlank c = true) (t : Text) :
    trimLeft (lead ++ t) = trimLeft t :=
  List.dropWhile_append_of_pos h

theorem trimRight_append_blank {gap : Text} (h : ∀ c ∈ gap, isBlank c = true) (t : Text) :
    trimRight (t ++ gap) = trimRight t := by
  unfold trimRight
  rw [List.reverse_append, List.dropWhile_append_of_pos]
  exact fun c hc => h c (List.mem_reverse.mp hc)

theorem trim_blank_append {lead : Text} (h : ∀ c ∈ lead, isBlank c = true) (t : Text) :
    trim (lead ++ t) = trim t := by
  rw [trim, trim, trimLeft_blank_append h]

theorem trim_append_blank {gap : Text} (h : ∀ c ∈ gap, isBlank c = true) (t : Text) :
    trim (t ++ gap) = trim t := by
  rw [trim, trim, trimLeft, trimLeft, List.dropWhile_append]
  split
  next hempty =>
    rw [List.isEmpty_iff.mp hempty, List.dropWhile_eq_nil_iff.mpr h]
  next => exact trimRight_append_blank h _

theorem head?_trimLeft (t : Text) : ∀ c ∈ (trimLeft t).head?, isBlank c = false := by
  intro c hc
  have hstop := List.head?_dropWhile_not isBlank t
  rw [show (t.dropWhile isBlank).head? = some c from hc] at hstop
  simpa using hstop

/-- A trimmed text begins with no blank. -/
theorem head?_trim_not_blank (t : Text) : ∀ c ∈ (trim t).head?, isBlank c = false := by
  intro c hc
  cases hleft : trimLeft t with
  | nil =>
      rw [trim, hleft] at hc
      cases hc
  | cons d u =>
      have hd : isBlank d = false := head?_trimLeft t d (by rw [hleft]; rfl)
      have htrim : trim t = trim (d :: u) := by
        rw [trim, trim, hleft, trimLeft_eq_self fun e he => by cases he; exact hd]
      rw [htrim, head?_trim hd] at hc
      cases hc
      exact hd

/-- A trimmed text ends in no blank. -/
theorem getLast?_trim_not_blank (t : Text) : ∀ c ∈ (trim t).getLast?, isBlank c = false := by
  intro c hc
  rw [trim, trimRight, List.getLast?_reverse] at hc
  exact head?_trimLeft _ c hc

theorem trim_trim (t : Text) : trim (trim t) = trim t :=
  trim_eq_self (head?_trim_not_blank t) (getLast?_trim_not_blank t)

/-- Trimming takes blanks off both ends. -/
theorem exists_trim (t : Text) :
    ∃ lead gap, t = lead ++ trim t ++ gap ∧ (∀ c ∈ lead, isBlank c = true) ∧
      ∀ c ∈ gap, isBlank c = true := by
  refine ⟨t.takeWhile isBlank, ((trimLeft t).reverse.takeWhile isBlank).reverse, ?_, ?_, ?_⟩
  · have hright : trim t ++ ((trimLeft t).reverse.takeWhile isBlank).reverse = trimLeft t := by
      rw [trim, trimRight, ← List.reverse_append, List.takeWhile_append_dropWhile,
        List.reverse_reverse]
    rw [List.append_assoc, hright]
    exact List.takeWhile_append_dropWhile.symm
  · exact fun c hc => List.mem_takeWhile_imp hc
  · exact fun c hc => List.mem_takeWhile_imp (List.mem_reverse.mp hc)

/-- Trimming takes off from the ends only. -/
theorem trim_isInfix (t : Text) : trim t <:+: t := by
  obtain ⟨lead, gap, ht, _, _⟩ := exists_trim t
  exact ⟨lead, gap, ht.symm⟩

end Rsc.Text
