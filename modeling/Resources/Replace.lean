import Mathlib.Data.List.Infix
import Mathlib.Data.List.Flatten

/-!
# Replacing all occurrences

`split p xs` is what lies between the occurrences of `p` in `xs`, taken
from the left and without overlap, and `replace p r` joins the parts with
`r` instead. `replace_rec` is the induction that goes with them: a list is
empty, begins with an occurrence, or goes on by an element that begins
none.

Two questions about `replace` are answered here. The first is when it can
be done part by part: `replace_append` gives the condition on the seam of
two parts, and `replace_literal` treats a part in which no occurrence
begins. The second is when nothing of `p` is left afterwards, given that
the gap an occurrence leaves may close to a new one. It is so unless an
occurrence comes in the middle of another (`Within`), and then the same
holds of several texts that are replaced one after the other
(`not_infix_replace`, `not_within_replace`).
-/

namespace Replace

section join
variable {α : Type*} {r : List α} {x : α} {parts : List (List α)}

theorem intercalate_cons_nil (h : parts ≠ []) :
    r.intercalate ([] :: parts) = r ++ r.intercalate parts := by
  obtain ⟨part, parts, rfl⟩ := List.exists_cons_of_ne_nil h
  rw [List.intercalate_cons_cons, List.nil_append]

theorem intercalate_modifyHead (h : parts ≠ []) :
    r.intercalate (parts.modifyHead (x :: ·)) = x :: r.intercalate parts := by
  obtain ⟨part, parts, rfl⟩ := List.exists_cons_of_ne_nil h
  cases parts with
  | nil => rw [List.modifyHead_cons, List.intercalate_singleton, List.intercalate_singleton]
  | cons part' parts =>
      rw [List.modifyHead_cons, List.intercalate_cons_cons, List.intercalate_cons_cons]
      rfl

end join

variable {α : Type*} [DecidableEq α]

/-- `split`, with the first `skip` elements part of an occurrence. -/
def splitFrom (p : List α) : ℕ → List α → List (List α)
  | _, [] => [[]]
  | skip + 1, _ :: xs => splitFrom p skip xs
  | 0, x :: xs =>
      if p <+: x :: xs then [] :: splitFrom p (p.length - 1) xs
      else (splitFrom p 0 xs).modifyHead (x :: ·)

/-- The parts of a list between the occurrences of `p`, which is not empty. -/
def split (p xs : List α) : List (List α) := splitFrom p 0 xs

/-- The list with `r` in place of the occurrences of `p`. -/
def replace (p r xs : List α) : List α := r.intercalate (split p xs)

variable {p r xs : List α} {x : α}

/-! ## The three cases -/

theorem splitFrom_append (s : List α) : splitFrom p s.length (s ++ xs) = split p xs := by
  induction s with
  | nil => rfl
  | cons y s ih => exact ih

theorem split_ne_nil (p xs : List α) : split p xs ≠ [] := by
  suffices h : ∀ skip, splitFrom p skip xs ≠ [] from h 0
  induction xs with
  | nil => exact fun _ => List.cons_ne_nil _ _
  | cons x xs ih =>
      intro skip
      cases skip with
      | succ skip => exact ih skip
      | zero =>
          rw [splitFrom]
          split
          · exact List.cons_ne_nil _ _
          · rw [ne_eq, List.modifyHead_eq_nil_iff]
            exact ih 0

theorem split_found (hp : p ≠ []) (xs : List α) : split p (p ++ xs) = [] :: split p xs := by
  obtain ⟨y, q, rfl⟩ := List.exists_cons_of_ne_nil hp
  have hfound : y :: q <+: y :: (q ++ xs) := List.prefix_append (y :: q) xs
  rw [split, List.cons_append, splitFrom, if_pos hfound]
  exact congrArg _ (splitFrom_append q)

theorem split_next (h : ¬p <+: x :: xs) :
    split p (x :: xs) = (split p xs).modifyHead (x :: ·) := by
  rw [split, splitFrom, if_neg h]
  rfl

@[simp] theorem replace_nil (p r : List α) : replace p r [] = [] := List.intercalate_singleton ..

theorem replace_found (hp : p ≠ []) (r xs : List α) :
    replace p r (p ++ xs) = r ++ replace p r xs := by
  rw [replace, split_found hp, intercalate_cons_nil (split_ne_nil p xs)]
  rfl

theorem replace_next (h : ¬p <+: x :: xs) : replace p r (x :: xs) = x :: replace p r xs := by
  rw [replace, split_next h, intercalate_modifyHead (split_ne_nil p xs)]
  rfl

/-- **Induction** along the occurrences. -/
theorem replace_rec (hp : p ≠ []) {motive : List α → Prop} (nil : motive [])
    (found : ∀ xs, motive xs → motive (p ++ xs))
    (next : ∀ x xs, ¬p <+: x :: xs → motive xs → motive (x :: xs)) (xs : List α) : motive xs := by
  induction hlen : xs.length using Nat.strong_induction_on generalizing xs with
  | _ n ih =>
      cases xs with
      | nil => exact nil
      | cons x xs =>
          by_cases h : p <+: x :: xs
          · obtain ⟨ys, hys⟩ := h
            rw [← hys, List.length_append] at hlen
            have hpos := List.length_pos_iff.mpr hp
            rw [← hys]
            exact found ys (ih ys.length (by omega) ys rfl)
          · rw [List.length_cons] at hlen
            exact next x xs h (ih xs.length (by omega) xs rfl)

/-! ## What is left alone -/

theorem replace_of_not_infix (h : ¬p <:+: xs) : replace p r xs = xs := by
  induction xs with
  | nil => exact replace_nil p r
  | cons x xs ih =>
      rw [List.infix_cons_iff, not_or] at h
      rw [replace_next h.1, ih h.2]

theorem length_replace_nil_le (hp : p ≠ []) (xs : List α) :
    (replace p [] xs).length ≤ xs.length := by
  induction xs using replace_rec hp with
  | nil => rw [replace_nil]
  | found xs ih =>
      rw [replace_found hp, List.nil_append, List.length_append]
      omega
  | next x xs h ih =>
      rw [replace_next h]
      exact Nat.succ_le_succ ih

/-- Taking `p` out changes exactly the lists it occurs in. -/
theorem replace_nil_eq_self_iff (hp : p ≠ []) : replace p [] xs = xs ↔ ¬p <:+: xs := by
  refine ⟨?_, replace_of_not_infix⟩
  have hpos := List.length_pos_iff.mpr hp
  induction xs using replace_rec hp with
  | nil =>
      rintro - hin
      exact hp (List.infix_nil.mp hin)
  | found xs ih =>
      intro h
      have hle := length_replace_nil_le hp xs
      have hlen := congrArg List.length h
      rw [replace_found hp, List.nil_append, List.length_append] at hlen
      omega
  | next x xs h ih =>
      intro heq
      rw [replace_next h] at heq
      rw [List.infix_cons_iff, not_or]
      exact ⟨h, ih (List.cons.inj heq).2⟩

/-! ## Part by part -/

/-- No occurrence of `p` begins in `a` and ends in what follows it, `b`. -/
def Apart (p a b : List α) : Prop :=
  ∀ s t, p = s ++ t → s ≠ [] → t ≠ [] → s <:+ a → ¬t <+: b

section seam
variable {a a' b : List α}

omit [DecidableEq α] in
theorem Apart.of_suffix (h : Apart p a b) (ha : a' <:+ a) : Apart p a' b :=
  fun s t hp hs ht hsa => h s t hp hs ht (hsa.trans ha)

omit [DecidableEq α] in
/-- What follows begins with an element that `p` can only begin with. -/
theorem apart_cons {c : α} (hc : c ∉ p.tail) : Apart p a (c :: b) := by
  rintro s t rfl hs ht - hb
  obtain ⟨y, s, rfl⟩ := List.exists_cons_of_ne_nil hs
  obtain ⟨z, t, rfl⟩ := List.exists_cons_of_ne_nil ht
  obtain ⟨rfl, -⟩ := List.cons_prefix_cons.mp hb
  exact hc (List.mem_append_right s List.mem_cons_self)

omit [DecidableEq α] in
theorem prefix_append_iff (h : Apart p a b) (ha : a ≠ []) : p <+: a ++ b ↔ p <+: a := by
  refine ⟨?_, fun hp => hp.trans (List.prefix_append a b)⟩
  rintro ⟨u, hu⟩
  rcases List.append_eq_append_iff.mp hu with ⟨v, rfl, -⟩ | ⟨t, rfl, hb⟩
  · exact List.prefix_append p v
  · rcases eq_or_ne t [] with rfl | ht
    · rw [List.append_nil]
    · exact absurd ⟨u, hb.symm⟩ (h a t rfl ha ht (List.suffix_refl a))

/-- Replacing in two parts apart from each other, if no occurrence lies across
the seam. -/
theorem replace_append (hp : p ≠ []) (h : Apart p a b) :
    replace p r (a ++ b) = replace p r a ++ replace p r b := by
  induction a using replace_rec hp with
  | nil => rw [replace_nil, List.nil_append, List.nil_append]
  | found a ih =>
      rw [List.append_assoc, replace_found hp, replace_found hp,
        ih (h.of_suffix (List.suffix_append p a)), List.append_assoc]
  | next x a hx ih =>
      have hx' : ¬p <+: x :: (a ++ b) := fun hin =>
        hx ((prefix_append_iff h (List.cons_ne_nil x a)).mp hin)
      rw [List.cons_append, replace_next hx', replace_next hx,
        ih (h.of_suffix (List.suffix_cons x a)), List.cons_append]

end seam

/-- Nothing that begins with `h` begins in `l`, whatever follows `l`. -/
def Clear (h l : List α) : Prop := ∀ s ∈ l.tails, s ≠ [] → ¬s <+: h ∧ ¬h <+: s

instance (h l : List α) : Decidable (Clear h l) := by
  unfold Clear
  infer_instance

section literal
variable {h l w : List α}

omit [DecidableEq α] in
theorem Clear.tail (hc : Clear h (x :: l)) : Clear h l := by
  intro s hs
  refine hc s ?_
  rw [List.tails_cons]
  exact List.mem_cons_of_mem _ hs

omit [DecidableEq α] in
theorem Clear.of_prefix (hc : Clear h l) (hp : h <+: p) : Clear p l := by
  intro s hs hne
  refine ⟨fun hpre => ?_, fun hpre => (hc s hs hne).2 (hp.trans hpre)⟩
  rcases List.prefix_or_prefix_of_prefix hpre hp with h' | h'
  · exact (hc s hs hne).1 h'
  · exact (hc s hs hne).2 h'

omit [DecidableEq α] in
theorem Clear.not_prefix (hc : Clear h (x :: l)) (hp : h <+: p) : ¬p <+: x :: (l ++ w) := by
  obtain ⟨hs, hh⟩ := hc (x :: l) (by rw [List.tails_cons]; exact List.mem_cons_self)
    (List.cons_ne_nil x l)
  intro hpre
  rcases List.prefix_or_prefix_of_prefix (hp.trans hpre) (List.prefix_append (x :: l) w) with h' | h'
  · exact hh h'
  · exact hs h'

/-- A part in which nothing begins stays as it is, whatever follows it. -/
theorem replace_literal (hp : h <+: p) (hc : Clear h l) :
    replace p r (l ++ w) = l ++ replace p r w := by
  induction l with
  | nil => rfl
  | cons x l ih => rw [List.cons_append, replace_next (hc.not_prefix hp), ih hc.tail, List.cons_append]

omit [DecidableEq α] in
theorem infix_literal (hp : h <+: p) (hc : Clear h l) (hin : p <:+: l ++ w) : p <:+: w := by
  induction l with
  | nil => exact hin
  | cons x l ih =>
      rcases List.infix_cons_iff.mp hin with hpre | hin
      · exact absurd hpre (hc.not_prefix hp)
      · exact ih hc.tail hin

end literal

/-! ## Markup -/

section markup
variable {o c : α}

/-- A text that begins with the sign that opens a tag and has no other one,
and that closes the tag at some place after it. -/
def Markup (o c : α) (p : List α) : Prop := ∃ q, p = o :: q ∧ o ∉ q ∧ c ∈ q

omit [DecidableEq α] in
theorem Markup.ne_nil (hp : Markup o c p) : p ≠ [] := by
  obtain ⟨q, rfl, -, -⟩ := hp
  exact List.cons_ne_nil o q

omit [DecidableEq α] in
theorem Markup.not_prefix (hp : Markup o c p) (hx : x ≠ o) : ¬p <+: x :: xs := by
  obtain ⟨q, rfl, -, -⟩ := hp
  exact fun hpre => hx (List.cons_prefix_cons.mp hpre).1.symm

end markup

/-! ## What is replaced does not come back -/

/-- An occurrence of `p` comes directly after a beginning of `t` that is not
the whole of it. If `p` is taken out there, the beginning meets what comes
after `p`, and the two may make a `t` that the text did not have. -/
def Within (p t xs : List α) : Prop := ∃ s, s ≠ [] ∧ s <+: t ∧ s ≠ t ∧ s ++ p <:+: xs

section within
variable {h q t : List α}

omit [DecidableEq α] in
theorem Within.mono (hw : Within p t xs) (hxs : xs <:+: ys) : Within p t ys := by
  obtain ⟨s, hs, hpre, hne, hin⟩ := hw
  exact ⟨s, hs, hpre, hne, hin.trans hxs⟩

omit [DecidableEq α] in
theorem Within.of_prefix (hw : Within p t xs) (hq : q <+: p) : Within q t xs := by
  obtain ⟨s, hs, hpre, hne, hin⟩ := hw
  exact ⟨s, hs, hpre, hne, ((List.prefix_append_right_inj s).mpr hq).isInfix.trans hin⟩

omit [DecidableEq α] in
/-- Between the parts of two texts that `p` does not interrupt it does not
come either. -/
theorem not_within_append {s : List α} (ht : ¬Within p t xs) (hq : ¬Within p q xs) (hs : s <+: t)
    (hne : s ≠ t) : ¬Within p (s ++ q) xs := by
  rintro ⟨s', hs', hpre, hne', hin⟩
  rcases List.prefix_or_prefix_of_prefix hpre (List.prefix_append s q) with hpre | ⟨q', rfl⟩
  · refine ht ⟨s', hs', hpre.trans hs, ?_, hin⟩
    rintro rfl
    exact hne (hs.eq_of_length_le hpre.length_le)
  · rcases eq_or_ne q' [] with rfl | hq'
    · rw [List.append_nil] at hs' hin
      exact ht ⟨s, hs', hs, hne, hin⟩
    · rw [List.prefix_append_right_inj] at hpre
      refine hq ⟨q', hq', hpre, fun heq => hne' (congrArg (s ++ ·) heq), ?_⟩
      rw [List.append_assoc] at hin
      exact (List.suffix_append s (q' ++ p)).isInfix.trans hin

/-- After the beginning `s` of a text nothing is replaced before the text
is complete. The induction is on what is left of it. -/
theorem prefix_replace (hp : p ≠ []) : ∀ {u s xs : List α}, s ≠ [] →
    ¬Within p (s ++ u) (s ++ xs) → u <+: replace p r xs → u <+: xs
  | [], _, _, _, _, _ => List.nil_prefix
  | _ :: _, _, [], _, _, hpre => by rwa [replace_nil] at hpre
  | y :: u, s, x :: xs, hs, hw, hpre => by
      have hx : ¬p <+: x :: xs := by
        intro hin
        refine hw ⟨s, hs, List.prefix_append s _, ?_,
          ((List.prefix_append_right_inj s).mpr hin).isInfix⟩
        exact fun heq => List.cons_ne_nil y u (List.self_eq_append_right.mp heq)
      rw [replace_next hx] at hpre
      obtain ⟨rfl, hrest⟩ := List.cons_prefix_cons.mp hpre
      have hw' : ¬Within p ((s ++ [y]) ++ u) ((s ++ [y]) ++ xs) := by
        rwa [List.append_assoc, List.append_assoc]
      have hs' : s ++ [y] ≠ [] := List.append_ne_nil_of_right_ne_nil s (List.cons_ne_nil y [])
      exact List.cons_prefix_cons.mpr ⟨rfl, prefix_replace hp hs' hw' hrest⟩

/-- **What is replaced is gone**, and nothing that was not there comes in
its place. -/
theorem not_infix_replace (hp : p ≠ []) (ht : t ≠ []) (hr : Clear t r) (xs : List α) :
    ¬Within p t xs → (t = p ∨ ¬t <:+: xs) → ¬t <:+: replace p r xs := by
  obtain ⟨y, u, rfl⟩ := List.exists_cons_of_ne_nil ht
  induction xs using replace_rec hp with
  | nil =>
      rintro - - hin
      rw [replace_nil] at hin
      exact List.cons_ne_nil y u (List.infix_nil.mp hin)
  | found xs ih =>
      intro hw hgone hin
      have hxs : xs <:+: p ++ xs := (List.suffix_append p xs).isInfix
      rw [replace_found hp] at hin
      refine ih (fun h => hw (h.mono hxs)) ?_ (infix_literal (List.prefix_refl _) hr hin)
      exact hgone.imp id fun hne h => hne (h.trans hxs)
  | next x xs hx ih =>
      intro hw hgone hin
      rw [replace_next hx] at hin
      rcases List.infix_cons_iff.mp hin with hpre | hin
      · obtain ⟨rfl, hrest⟩ := List.cons_prefix_cons.mp hpre
        have hwhole : y :: u <+: y :: xs := List.cons_prefix_cons.mpr
          ⟨rfl, prefix_replace hp (List.cons_ne_nil y []) hw hrest⟩
        rcases hgone with rfl | hne
        · exact hx hwhole
        · exact hne hwhole.isInfix
      · have hxs : xs <:+: x :: xs := (List.suffix_cons x xs).isInfix
        exact ih (fun h => hw (h.mono hxs)) (hgone.imp id fun hne h => hne (h.trans hxs)) hin

/-- Taking out `p` does not bring an occurrence of `q` into an unfinished
`t`. -/
theorem not_within_replace (hp : p ≠ []) (hr : ∀ s, s ≠ [] → s <+: t → Clear (s ++ q) r)
    (hpt : ¬Within p t xs) (hpq : ¬Within p q xs) (hqt : ¬Within q t xs) :
    ¬Within q t (replace p r xs) := by
  rintro ⟨s, hs, hpre, hne, hin⟩
  have hsq : s ++ q ≠ [] := List.append_ne_nil_of_left_ne_nil hs q
  refine not_infix_replace hp hsq (hr s hs hpre) xs (not_within_append hpt hpq hpre hne) ?_ hin
  exact Or.inr fun hin => hqt ⟨s, hs, hpre, hne, hin⟩

end within

end Replace
