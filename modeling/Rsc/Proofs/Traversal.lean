import Mathlib.Data.List.Forall2

/-!
# Traversals that stop at the first failure

The passes over a program and over the operands of an instruction go from left to right and stop
at the first problem. `Reaches` says which element such a scan gets to, and the lemmas below say
of each kind of traversal when it succeeds and where it stops.
-/

namespace Rsc

variable {ε α β : Type}

/-- A scan that goes on only past elements of which `passes` holds gets to `x`. -/
def Reaches (passes : α → Prop) (xs : List α) (x : α) : Prop :=
  ∃ before after, xs = before ++ x :: after ∧ ∀ y ∈ before, passes y

namespace Reaches

variable {passes : α → Prop} {xs : List α} {x y : α}

theorem nil_iff : ¬ Reaches passes [] x := by
  rintro ⟨before, after, hsplit, _⟩
  cases before <;> simp at hsplit

theorem cons_iff : Reaches passes (y :: xs) x ↔ y = x ∨ passes y ∧ Reaches passes xs x := by
  constructor
  · rintro ⟨before, after, hsplit, hbefore⟩
    cases before with
    | nil => exact Or.inl (List.cons.inj hsplit).1
    | cons z before =>
        obtain ⟨rfl, rfl⟩ := List.cons.inj hsplit
        refine Or.inr ⟨hbefore y List.mem_cons_self, before, after, rfl, ?_⟩
        exact fun z hz => hbefore z (List.mem_cons_of_mem _ hz)
  · rintro (rfl | ⟨hy, before, after, rfl, hbefore⟩)
    · exact ⟨[], xs, rfl, by simp⟩
    · refine ⟨y :: before, after, rfl, ?_⟩
      intro z hz
      rcases List.mem_cons.mp hz with rfl | hz
      · exact hy
      · exact hbefore z hz

theorem mem (h : Reaches passes xs x) : x ∈ xs := by
  obtain ⟨before, after, rfl, _⟩ := h
  simp

/-- A scan that passes more gets at least as far. -/
theorem mono {passes' : α → Prop} (h : Reaches passes xs x)
    (himp : ∀ y ∈ xs, passes y → passes' y) : Reaches passes' xs x := by
  obtain ⟨before, after, rfl, hbefore⟩ := h
  refine ⟨before, after, rfl, fun y hy => himp y ?_ (hbefore y hy)⟩
  exact List.mem_append_left _ hy

/-- A scan either passes over everything or stops somewhere. -/
theorem all_or_stops (passes : α → Prop) (xs : List α) :
    (∀ x ∈ xs, passes x) ∨ ∃ x, Reaches passes xs x ∧ ¬ passes x := by
  induction xs with
  | nil => exact Or.inl (by simp)
  | cons y xs ih =>
      by_cases hy : passes y
      · rcases ih with hall | ⟨x, hx, hstop⟩
        · exact Or.inl (List.forall_mem_cons.mpr ⟨hy, hall⟩)
        · exact Or.inr ⟨x, cons_iff.mpr (Or.inr ⟨hy, hx⟩), hstop⟩
      · exact Or.inr ⟨y, cons_iff.mpr (Or.inl rfl), hy⟩

end Reaches

/-! ## Steps in sequence -/

/-- Two steps succeed if the first does and then the second. -/
theorem bind_eq_ok_iff {x : Except ε α} {f : α → Except ε β} {b : β} :
    (x >>= f) = .ok b ↔ ∃ a, x = .ok a ∧ f a = .ok b := by
  cases x with
  | error e => simp [bind, Except.bind]
  | ok a => simp [bind, Except.bind]

/-- Two steps fail if the first does, or if the second does after it. -/
theorem bind_eq_error_iff {x : Except ε α} {f : α → Except ε β} {e : ε} :
    (x >>= f) = .error e ↔ x = .error e ∨ ∃ a, x = .ok a ∧ f a = .error e := by
  cases x with
  | error e' => simp [bind, Except.bind]
  | ok a => simp [bind, Except.bind]

/-! ## Whole lists -/

/-- Steps on all elements succeed if each does on its own. -/
theorem mapM_eq_ok_iff {f : α → Except ε β} {xs : List α} {ys : List β} :
    xs.mapM f = .ok ys ↔ List.Forall₂ (fun x y => f x = .ok y) xs ys := by
  induction xs generalizing ys with
  | nil =>
      rw [List.mapM_nil, List.forall₂_nil_left_iff]
      exact ⟨fun h => (Except.ok.inj h).symm, fun h => h ▸ rfl⟩
  | cons x xs ih =>
      rw [List.mapM_cons, List.forall₂_cons_left_iff, bind_eq_ok_iff]
      constructor
      · rintro ⟨y, hy, hrest⟩
        obtain ⟨ys', hys, hret⟩ := bind_eq_ok_iff.mp hrest
        exact ⟨y, ys', hy, ih.mp hys, (Except.ok.inj hret).symm⟩
      · rintro ⟨y, ys', hy, hys, rfl⟩
        exact ⟨y, hy, bind_eq_ok_iff.mpr ⟨ys', ih.mpr hys, rfl⟩⟩

/-- A traversal that succeeds on each element with a result for the target beside it gives results
for all targets. -/
theorem exists_mapM_of_zip {γ : Type} {f : α → Except ε β} {Q : γ → β → Prop} {targets : List γ}
    {xs : List α} (hlength : targets.length = xs.length)
    (h : ∀ pair ∈ targets.zip xs, ∃ y, f pair.2 = .ok y ∧ Q pair.1 y) :
    ∃ ys, xs.mapM f = .ok ys ∧ List.Forall₂ Q targets ys := by
  induction targets generalizing xs with
  | nil =>
      obtain rfl : xs = [] := List.length_eq_zero_iff.mp hlength.symm
      exact ⟨[], rfl, .nil⟩
  | cons target targets ih =>
      cases xs with
      | nil => simp at hlength
      | cons x xs =>
          rw [List.zip_cons_cons, List.forall_mem_cons] at h
          obtain ⟨y, hy, htarget⟩ := h.1
          obtain ⟨ys, hys, htargets⟩ := ih (by simpa using hlength) h.2
          refine ⟨y :: ys, ?_, .cons htarget htargets⟩
          rw [List.mapM_cons, hy, hys]
          rfl

/-- Steps on all elements fail as the first one that fails. -/
theorem mapM_eq_error_iff {f : α → Except ε β} {xs : List α} {e : ε} :
    xs.mapM f = .error e ↔
      ∃ x, Reaches (fun y => ∃ b, f y = .ok b) xs x ∧ f x = .error e := by
  induction xs with
  | nil =>
      simp [List.mapM_nil, pure, Except.pure, Reaches.nil_iff]
  | cons y xs ih =>
      rw [List.mapM_cons, bind_eq_error_iff]
      constructor
      · rintro (hy | ⟨b, hb, hrest⟩)
        · exact ⟨y, Reaches.cons_iff.mpr (Or.inl rfl), hy⟩
        · rcases bind_eq_error_iff.mp hrest with hxs | ⟨bs, _, hret⟩
          · obtain ⟨x, hreach, hx⟩ := ih.mp hxs
            exact ⟨x, Reaches.cons_iff.mpr (Or.inr ⟨⟨b, hb⟩, hreach⟩), hx⟩
          · cases hret
      · rintro ⟨x, hreach, hx⟩
        rcases Reaches.cons_iff.mp hreach with rfl | ⟨⟨b, hb⟩, hreach⟩
        · exact Or.inl hx
        · exact Or.inr ⟨b, hb, bind_eq_error_iff.mpr (Or.inl (ih.mpr ⟨x, hreach, hx⟩))⟩

/-- Nothing is found if no element gives anything. -/
theorem findSomeM?_eq_none_iff {f : α → Except ε (Option β)} {xs : List α} :
    xs.findSomeM? f = .ok none ↔ ∀ x ∈ xs, f x = .ok none := by
  induction xs with
  | nil => simp [pure, Except.pure]
  | cons x xs ih =>
      rw [List.findSomeM?_cons, List.forall_mem_cons, ← ih]
      cases hx : f x with
      | error e => simp [bind, Except.bind]
      | ok found =>
          cases found with
          | none => simp [bind, Except.bind]
          | some b => simp [bind, Except.bind, pure, Except.pure]

/-- What a search gives other than nothing, it gives at the first element that does not pass. -/
theorem findSomeM?_eq_iff {f : α → Except ε (Option β)} {xs : List α}
    {r : Except ε (Option β)} (hr : r ≠ .ok none) :
    xs.findSomeM? f = r ↔ ∃ x, Reaches (fun y => f y = .ok none) xs x ∧ f x = r := by
  induction xs with
  | nil =>
      simp only [List.findSomeM?_nil, Reaches.nil_iff, false_and, exists_false, iff_false]
      exact fun h => hr h.symm
  | cons y xs ih =>
      rw [List.findSomeM?_cons]
      simp only [Reaches.cons_iff]
      cases hy : f y with
      | error e =>
          constructor
          · intro h
            exact ⟨y, Or.inl rfl, hy.trans h⟩
          · rintro ⟨x, rfl | ⟨hpass, _⟩, hx⟩
            · exact hy.symm.trans hx
            · cases hpass
      | ok found =>
          cases found with
          | none =>
              -- The element passes: the search is that of the rest, and it stops there.
              rw [show (Except.ok none >>= _ : Except ε (Option β)) = xs.findSomeM? f from rfl, ih]
              constructor
              · rintro ⟨x, hreach, hx⟩
                exact ⟨x, Or.inr ⟨rfl, hreach⟩, hx⟩
              · rintro ⟨x, rfl | ⟨_, hreach⟩, hx⟩
                · exact absurd (hx.symm.trans hy) hr
                · exact ⟨x, hreach, hx⟩
          | some b =>
              constructor
              · intro h
                exact ⟨y, Or.inl rfl, hy.trans h⟩
              · rintro ⟨x, rfl | ⟨hpass, _⟩, hx⟩
                · exact hy.symm.trans hx
                · cases hpass

theorem findSomeM?_congr {f g : α → Except ε (Option β)} {xs : List α}
    (h : ∀ x ∈ xs, f x = g x) : xs.findSomeM? f = xs.findSomeM? g := by
  induction xs with
  | nil => rfl
  | cons x xs ih =>
      obtain ⟨hx, hxs⟩ := List.forall_mem_cons.mp h
      rw [List.findSomeM?_cons, List.findSomeM?_cons, hx, ih hxs]

/-! ## Two runs side by side -/

/-- Two results agree: both are values that are related, or both are errors that are related. -/
inductive Agree {ε ε' α β : Type} (Error : ε → ε' → Prop) (Value : α → β → Prop) :
    Except ε α → Except ε' β → Prop where
  | ok {a : α} {b : β} (h : Value a b) : Agree Error Value (.ok a) (.ok b)
  | error {e : ε} {e' : ε'} (h : Error e e') : Agree Error Value (.error e) (.error e')

namespace Agree

variable {ε' γ δ : Type} {Error : ε → ε' → Prop} {Value : α → β → Prop} {Result : γ → δ → Prop}

/-- Steps that agree, one after the other. -/
theorem bind {x : Except ε α} {y : Except ε' β} {f : α → Except ε γ} {g : β → Except ε' δ}
    (h : Agree Error Value x y) (hnext : ∀ a b, Value a b → Agree Error Result (f a) (g b)) :
    Agree Error Result (x >>= f) (y >>= g) := by
  cases h with
  | ok hvalue => exact hnext _ _ hvalue
  | error herror => exact .error herror

/-- Steps that agree, on lists that are related one by one. -/
theorem mapM {f : α → Except ε γ} {g : β → Except ε' δ} {xs : List α} {ys : List β}
    (h : List.Forall₂ Value xs ys) (hstep : ∀ x y, Value x y → Agree Error Result (f x) (g y)) :
    Agree Error (List.Forall₂ Result) (xs.mapM f) (ys.mapM g) := by
  induction h with
  | nil => exact .ok .nil
  | cons hhead _ ih =>
      rw [List.mapM_cons, List.mapM_cons]
      apply (hstep _ _ hhead).bind
      intro c d hfirst
      apply ih.bind
      intro cs ds hrest
      exact .ok (.cons hfirst hrest)

/-- Errors may be put in other words on both sides. -/
theorem mapError {η η' : Type} {Error' : η → η' → Prop} {x : Except ε α} {y : Except ε' β}
    {f : ε → η} {g : ε' → η'} (h : Agree Error Value x y)
    (herror : ∀ e e', Error e e' → Error' (f e) (g e')) :
    Agree Error' Value (x.mapError f) (y.mapError g) := by
  cases h with
  | ok hvalue => exact .ok hvalue
  | error hfails => exact .error (herror _ _ hfails)

end Agree

theorem forall₂_zipIdx {R : α → β → Prop} {xs : List α} {ys : List β} (h : List.Forall₂ R xs ys)
    (base : Nat) :
    List.Forall₂ (fun item item' => R item.1 item'.1 ∧ item.2 = item'.2) (xs.zipIdx base)
      (ys.zipIdx base) := by
  induction h generalizing base with
  | nil => exact .nil
  | cons hhead _ ih => exact .cons ⟨hhead, rfl⟩ (ih (base + 1))

theorem forall_mem_right_of_forall₂ {R : α → β → Prop} {P : β → Prop} {xs : List α} {ys : List β}
    (h : List.Forall₂ R xs ys) (himp : ∀ x y, R x y → P y) : ∀ y ∈ ys, P y := by
  induction h with
  | nil => simp
  | cons hhead _ ih => exact List.forall_mem_cons.mpr ⟨himp _ _ hhead, ih⟩

/-- What relates a list to a third one carries over to a list that it is related to. -/
theorem forall₂_transfer {γ : Type} {R : α → β → Prop} {P : α → γ → Prop} {Q : β → γ → Prop}
    {xs : List α} {ys : List β} {zs : List γ} (hrelated : List.Forall₂ R xs ys)
    (h : List.Forall₂ P xs zs) (himp : ∀ x y z, R x y → P x z → Q y z) : List.Forall₂ Q ys zs := by
  induction hrelated generalizing zs with
  | nil =>
      obtain rfl := List.forall₂_nil_left_iff.mp h
      exact .nil
  | cons hhead _ ih =>
      obtain ⟨z, zs, hz, hzs, rfl⟩ := List.forall₂_cons_left_iff.mp h
      exact .cons (himp _ _ _ hhead hz) (ih hzs)

/-- Lists that are related part by part are cut in the same places. -/
theorem forall₂_append_cons_left {R : α → β → Prop} {before after : List α} {x : α} {ys : List β}
    (h : List.Forall₂ R (before ++ x :: after) ys) :
    ∃ before' y after', ys = before' ++ y :: after' ∧ List.Forall₂ R before before' ∧ R x y := by
  induction before generalizing ys with
  | nil =>
      obtain ⟨y, after', hxy, _, rfl⟩ := List.forall₂_cons_left_iff.mp h
      exact ⟨[], y, after', rfl, .nil, hxy⟩
  | cons z before ih =>
      obtain ⟨z', ys', hz, hrest, rfl⟩ := List.forall₂_cons_left_iff.mp h
      obtain ⟨before', y, after', rfl, hbefore, hxy⟩ := ih hrest
      exact ⟨z' :: before', y, after', rfl, .cons hz hbefore, hxy⟩

end Rsc
