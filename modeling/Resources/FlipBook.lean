import Mathlib.Data.List.Rotate
import Resources.Runs

/-!
# `FlipBook` and `ShuffleBook`

Two ways to page through photos, and the order in which the pages lie on
each other. In a flip book the pages to the left lie in order and those
to the right in reverse, whatever has been clicked (`flips_spread`). A
shuffle book puts the photo on top under all the others, so that they
come up in turn (`shuffles_in_turn`).

An animation is taken for what it leads to. Loading the photos is left
out, and so are the positions of the buttons.
-/

namespace DisplayList

variable {α : Type*}

theorem filter_filter_of_imp {p q : α → Bool} (l : List α) (h : ∀ a, p a = true → q a = true) :
    (l.filter q).filter p = l.filter p := by
  rw [List.filter_filter]
  refine List.filter_congr ?_
  intro a _
  cases hp : p a with
  | false => rfl
  | true => rw [h a hp, Bool.and_self]

variable [DecidableEq α] {child : α} {children : List α}

/-- The call `addChild`, for a child that may be there already. It is taken out
and put on top; the last child of the list is the one on top. -/
def addChild (child : α) (children : List α) : List α := children.erase child ++ [child]

/-- The call `setChildIndex(child, 0)`, which puts a child under all the
others. -/
def toBottom (child : α) (children : List α) : List α := child :: children.erase child

theorem addChild_perm (h : child ∈ children) : (addChild child children).Perm children :=
  (List.perm_append_singleton child _).trans (List.perm_cons_erase h).symm

/-- The children that it is not about keep their order, whichever of them one
looks at. -/
theorem filter_addChild {p q : α → Bool} (hnodup : children.Nodup)
    (hpq : ∀ a, a ≠ child → p a = q a) (hq : q child = false) :
    (addChild child children).filter p =
      children.filter q ++ [child].filter p := by
  rw [addChild, List.filter_append, hnodup.erase_eq_filter, List.filter_filter]
  congr 1
  refine List.filter_congr ?_
  intro a _
  by_cases ha : a = child
  · rw [ha, hq, bne_self_eq_false, Bool.and_false]
  · rw [bne_iff_ne.mpr ha, Bool.and_true, hpq a ha]

/-- The child on top goes to the bottom: seen from above, a rotation. -/
theorem reverse_toBottom {top : List α} (hnodup : children.Nodup)
    (htop : children.reverse = child :: top) :
    (toBottom child children).reverse = children.reverse.rotate 1 := by
  have hchildren : children = top.reverse ++ [child] := by
    rw [← List.reverse_reverse children, htop, List.reverse_cons]
  have hfresh : child ∉ top.reverse := by
    rw [hchildren] at hnodup
    exact fun h => List.disjoint_of_nodup_append hnodup h (List.mem_singleton_self child)
  have herase : children.erase child = top.reverse := by
    rw [hchildren, List.erase_append_right _ hfresh, List.erase_cons_head, List.append_nil]
  rw [toBottom, herase, htop, List.reverse_cons, List.reverse_reverse, List.rotate_cons_succ,
    List.rotate_zero]

end DisplayList

namespace Resources

namespace FlipBook

/-! ## The flip book -/

/-- Where `pageHolder` is moved to, named after the function that does it: a
quarter of the width to the left while all pages are on the right, a quarter
to the right when all are on the left, and to the middle otherwise. -/
inductive Place where
  | centerRightPage
  | centerLeftPage
  | centerPage
deriving DecidableEq

structure State where
  /-- The `flipPos` of each page, which is 1 for a page on the right and 0 for
  one on the left. A flip is a tween of that number, and what stands here is
  the target of the latest one: the page is taken to be turned as soon as
  its flip begins. -/
  pageArray : List ℕ
  /-- The pages by their index, the last one on top. -/
  pageHolder : List ℕ
  currentPage : ℤ
  lastDir : ℤ
  tracker : ℤ
  /-- `butLeft.visible`. -/
  butLeft : Bool
  /-- `butRight.visible`. -/
  butRight : Bool
  place : Place
  /-- The page of each `FLIPPED` event. -/
  flipped : List ℤ

namespace State

def centerRightPage (s : State) : State :=
  { s with butLeft := false, butRight := true, place := .centerRightPage }

def centerLeftPage (s : State) : State :=
  { s with butRight := false, butLeft := true, place := .centerLeftPage }

def centerPage (s : State) : State :=
  { s with butRight := true, butLeft := true, place := .centerPage }

/-- A `FLIPPED` event is dispatched, which comes with the new `tracker`. -/
def track (d : ℤ) (s : State) : State :=
  { s with tracker := s.tracker + d, flipped := s.flipped ++ [s.tracker + d] }

/-- The current page is put on top and flipped to the other side. The page
comes from the array, so that outside of it `addChild` gets none, which is an
error. -/
def turn (flipPos : ℕ) (s : State) : Option State :=
  if 0 ≤ s.currentPage ∧ s.currentPage < s.pageArray.length then
    some { s with
      pageHolder := DisplayList.addChild s.currentPage.toNat s.pageHolder
      pageArray := s.pageArray.set s.currentPage.toNat flipPos }
  else none

/-- What `flipRight` and `flipLeft` do before they turn a page. `currentPage`
is the page that a further click in the same direction turns. When `dir` is
not the direction of the click before (`lastDir`), `currentPage` first goes
by `d` to the page that was turned last, and that page is turned back. -/
def move (d dir : ℤ) (s : State) : State :=
  if s.lastDir ≠ dir then { s with currentPage := s.currentPage + d } else s

/-- A click on the right button. At the end of the book nothing is turned, and
only `lastDir` is set. -/
def flipRight (s : State) : Option State :=
  let s := { s with butLeft := true }
  if s.currentPage < s.pageArray.length then
    ((s.track 1).move 1 1).turn 0 |>.map fun s =>
      let s := { s with currentPage := s.currentPage + 1 }
      let s := if s.currentPage = s.pageArray.length then s.centerLeftPage else s.centerPage
      { s with lastDir := 1 }
  else some { s with lastDir := 1 }

/-- A click on the left button. Before the first page nothing is turned, and
only `lastDir` is set. -/
def flipLeft (s : State) : Option State :=
  if s.currentPage > -1 then
    ((s.track (-1)).move (-1) 0).turn 1 |>.map fun s =>
      let s := { s with currentPage := s.currentPage - 1 }
      let s := if s.currentPage = -1 then s.centerRightPage else s.centerPage
      { s with lastDir := 0 }
  else some { s with lastDir := 0 }

end State

/-- The end of `createPages`, for `n` pages: the first one is added last, and
lies on top on the right. -/
def createPages (n : ℕ) : State where
  pageArray := List.replicate n 1
  pageHolder := (List.range n).reverse
  currentPage := 0
  lastDir := 1
  tracker := 0
  butLeft := false
  butRight := true
  place := .centerRightPage
  flipped := []

inductive Call where
  | flipRight
  | flipLeft
deriving DecidableEq

def step (s : State) : Call → Option State
  | .flipRight => s.flipRight
  | .flipLeft => s.flipLeft

/-- How many of `n` pages have been turned after these clicks, which is never
less than none and never more than all. -/
def turned (n : ℕ) (calls : List Call) : ℕ :=
  calls.foldl (fun f call => match call with
    | .flipRight => min n (f + 1)
    | .flipLeft => f - 1) 0

/-- The first `f` of `n` pages lie to the left and the others to the right.
Each side is seen from below: to the left in order, to the right in reverse. -/
structure Pages (n f : ℕ) (pageArray pageHolder : List ℕ) : Prop where
  le : f ≤ n
  flipPos : pageArray = List.replicate f 0 ++ List.replicate (n - f) 1
  perm : pageHolder.Perm (List.range n)
  left : pageHolder.filter (· < f) = List.range f
  right : pageHolder.filter (f ≤ ·) = (List.range' f (n - f)).reverse

/-- The book of `n` pages lies open after its first `f` pages: the pages, the
number that was announced last, the buttons and the place all say so. -/
structure Spread (n f : ℕ) (s : State) : Prop where
  pages : Pages n f s.pageArray s.pageHolder
  tracker : s.tracker = f
  announced : s.flipped.getLastD 0 = f
  butLeft : s.butLeft = decide (0 < f)
  butRight : s.butRight = decide (f < n)
  place : s.place = if f = 0 then .centerRightPage else if f = n then .centerLeftPage
    else .centerPage

variable {n f : ℕ} {pageArray pageHolder : List ℕ} {s s' : State}

/-! ## Turning a page -/

namespace Pages

theorem nodup (h : Pages n f pageArray pageHolder) : pageHolder.Nodup :=
  h.perm.nodup_iff.mpr List.nodup_range

theorem length (h : Pages n f pageArray pageHolder) : pageArray.length = n := by
  rw [h.flipPos, List.length_append, List.length_replicate, List.length_replicate]
  exact Nat.add_sub_of_le h.le

theorem addChild_perm (h : Pages n f pageArray pageHolder) {page : ℕ} (hpage : page < n) :
    (DisplayList.addChild page pageHolder).Perm (List.range n) :=
  (DisplayList.addChild_perm (h.perm.mem_iff.mpr (List.mem_range.mpr hpage))).trans h.perm

theorem left_of_succ (h : Pages n (f + 1) pageArray pageHolder) :
    pageHolder.filter (· < f) = List.range f := by
  rw [← DisplayList.filter_filter_of_imp (q := (· < f + 1)) pageHolder ?_, h.left, List.range_succ,
    List.filter_append, List.filter_eq_self.mpr ?_, List.filter_eq_nil_iff.mpr ?_, List.append_nil]
  · intro a ha
    rw [List.mem_singleton.mp ha, decide_eq_true_eq]
    exact lt_irrefl f
  · intro a ha
    exact decide_eq_true (List.mem_range.mp ha)
  · intro a ha
    exact decide_eq_true (Nat.lt_succ_of_lt (of_decide_eq_true ha))

theorem right_succ (h : Pages n f pageArray pageHolder) (hf : f < n) :
    pageHolder.filter (f + 1 ≤ ·) = (List.range' (f + 1) (n - (f + 1))).reverse := by
  have hn : n - f = n - (f + 1) + 1 := by omega
  rw [← DisplayList.filter_filter_of_imp (q := (f ≤ ·)) pageHolder ?_, h.right, hn,
    List.range'_succ, List.reverse_cons, List.filter_append, List.filter_eq_self.mpr ?_,
    List.filter_eq_nil_iff.mpr ?_, List.append_nil]
  · intro a ha
    rw [List.mem_singleton.mp ha, decide_eq_true_eq]
    exact Nat.not_succ_le_self f
  · intro a ha
    rw [List.mem_reverse, List.mem_range'_1] at ha
    exact decide_eq_true ha.1
  · intro a ha
    exact decide_eq_true (Nat.le_of_succ_le (of_decide_eq_true ha))

/-- The page on top to the right becomes the page on top to the left. -/
theorem flipRight (h : Pages n f pageArray pageHolder) (hf : f < n) :
    Pages n (f + 1) (pageArray.set f 0) (DisplayList.addChild f pageHolder) := by
  have hn : n - f = n - (f + 1) + 1 := by omega
  refine ⟨hf, ?_, h.addChild_perm hf, ?_, ?_⟩
  · rw [h.flipPos, hn, List.set_append_right _ _ (List.length_replicate.le),
      List.length_replicate, Nat.sub_self, List.replicate_succ, List.set_cons_zero,
      List.replicate_succ', List.append_assoc, List.singleton_append]
  · rw [DisplayList.filter_addChild (q := (· < f)) h.nodup ?_ ?_, h.left, List.range_succ,
      List.filter_eq_self.mpr ?_]
    · intro a ha
      rw [List.mem_singleton.mp ha]
      exact decide_eq_true (Nat.lt_succ_self f)
    · intro a ha
      exact decide_eq_decide.mpr (by omega)
    · exact decide_eq_false (lt_irrefl f)
  · rw [DisplayList.filter_addChild (q := (f + 1 ≤ ·)) h.nodup (fun _ _ => rfl) ?_, h.right_succ hf,
      List.filter_eq_nil_iff.mpr ?_, List.append_nil]
    · intro a ha
      rw [List.mem_singleton.mp ha, decide_eq_true_eq]
      exact Nat.not_succ_le_self f
    · exact decide_eq_false (Nat.not_succ_le_self f)

/-- The page on top to the left becomes the page on top to the right. -/
theorem flipLeft (h : Pages n (f + 1) pageArray pageHolder) :
    Pages n f (pageArray.set f 1) (DisplayList.addChild f pageHolder) := by
  have hn : n - f = n - (f + 1) + 1 := by
    have := h.le
    omega
  refine ⟨Nat.le_of_succ_le h.le, ?_, h.addChild_perm h.le, ?_, ?_⟩
  · rw [h.flipPos, List.replicate_succ', List.append_assoc,
      List.set_append_right _ _ (List.length_replicate.le), List.length_replicate, Nat.sub_self,
      List.singleton_append, List.set_cons_zero, hn, List.replicate_succ]
  · rw [DisplayList.filter_addChild (q := (· < f)) h.nodup (fun _ _ => rfl) ?_, h.left_of_succ,
      List.filter_eq_nil_iff.mpr ?_, List.append_nil]
    · intro a ha
      rw [List.mem_singleton.mp ha, decide_eq_true_eq]
      exact lt_irrefl f
    · exact decide_eq_false (lt_irrefl f)
  · rw [DisplayList.filter_addChild (q := (f + 1 ≤ ·)) h.nodup ?_ ?_, h.right, hn,
      List.range'_succ, List.reverse_cons, List.filter_eq_self.mpr ?_]
    · intro a ha
      rw [List.mem_singleton.mp ha]
      exact decide_eq_true le_rfl
    · intro a ha
      exact decide_eq_decide.mpr (by omega)
    · exact decide_eq_false (Nat.not_succ_le_self f)

end Pages

/-! ## The clicks -/

/-- The page that the next click turns, as the two fields of the book have it.
After a click to the right `currentPage` is the first page on the right, and
after one to the left it is the last page on the left. -/
def Position (n f : ℕ) (s : State) : Prop :=
  s.lastDir = 1 ∧ s.currentPage = f ∨ s.lastDir = 0 ∧ s.currentPage = (f : ℤ) - 1 ∧ f < n

theorem turn_eq {page flipPos : ℕ} (hpage : s.currentPage = page) (h : page < s.pageArray.length) :
    s.turn flipPos = some { s with
      pageHolder := DisplayList.addChild page s.pageHolder
      pageArray := s.pageArray.set page flipPos } := by
  have hin : 0 ≤ s.currentPage ∧ s.currentPage < s.pageArray.length := by
    rw [hpage]
    exact ⟨Int.natCast_nonneg page, Int.ofNat_lt.mpr h⟩
  rw [State.turn, if_pos hin, hpage, Int.toNat_natCast]

theorem move_right (hpos : Position n f s) : s.move 1 1 = { s with currentPage := f } := by
  obtain ⟨hdir, hpage⟩ | ⟨hdir, hpage, -⟩ := hpos
  · rw [State.move, if_neg (not_not_intro hdir), ← hpage]
  · have hnext : s.currentPage + 1 = f := by omega
    rw [State.move, hdir, if_pos Int.zero_ne_one, hnext]

theorem move_left (hpos : Position n (f + 1) s) : s.move (-1) 0 = { s with currentPage := f } := by
  obtain ⟨hdir, hpage⟩ | ⟨hdir, hpage, -⟩ := hpos
  · have hnext : s.currentPage + -1 = f := by omega
    rw [State.move, hdir, if_pos Int.one_ne_zero, hnext]
  · have hpage' : (f : ℤ) = s.currentPage := by omega
    rw [State.move, if_neg (not_not_intro hdir), hpage']

/-- A click to the right turns one page, if there is one to the right. -/
theorem flipRight_spread (h : Spread n f s) (hpos : Position n f s) (hf : f < n) :
    ∃ s', s.flipRight = some s' ∧ Spread n (f + 1) s' ∧ Position n (f + 1) s' := by
  have hlength := h.pages.length
  have hopen : s.currentPage < s.pageArray.length := by
    rw [hlength]
    obtain ⟨-, hpage⟩ | ⟨-, hpage, -⟩ := hpos <;> omega
  have hmove : (State.track 1 { s with butLeft := true }).move 1 1 =
      { State.track 1 { s with butLeft := true } with currentPage := f } := move_right hpos
  have hturn := @turn_eq { State.track 1 { s with butLeft := true } with currentPage := f } f 0 rfl
    (hlength.symm ▸ hf)
  have htracker : s.tracker + 1 = (f + 1 : ℕ) := by rw [h.tracker, Int.natCast_add, Int.natCast_one]
  have hpages := h.pages.flipRight hf
  have hpos' : (1 : ℤ) = 1 ∧ (f : ℤ) + 1 = (f + 1 : ℕ) := ⟨rfl, rfl⟩
  have hset : (f : ℤ) + 1 = (s.pageArray.set f 0).length ↔ f + 1 = n := by
    rw [List.length_set, hlength, ← Int.natCast_succ, Int.natCast_inj]
  have hlast : (s.flipped ++ [s.tracker + 1]).getLastD 0 = (f + 1 : ℕ) := by
    rw [List.getLastD_concat, htracker]
  unfold State.flipRight
  simp only
  rw [if_pos hopen, hmove, hturn, Option.map_some]
  refine ⟨_, rfl, ?_, ?_⟩
  · split
    · next hend =>
        have hn : f + 1 = n := hset.mp hend
        refine ⟨hpages, htracker, hlast, ?_, ?_, ?_⟩
        · exact (decide_eq_true (Nat.succ_pos f)).symm
        · exact (decide_eq_false (by omega)).symm
        · rw [if_neg (Nat.succ_ne_zero f), if_pos hn]
          rfl
    · next hend =>
        have hn : f + 1 ≠ n := fun hn => hend (hset.mpr hn)
        refine ⟨hpages, htracker, hlast, ?_, ?_, ?_⟩
        · exact (decide_eq_true (Nat.succ_pos f)).symm
        · exact (decide_eq_true (by omega)).symm
        · rw [if_neg (Nat.succ_ne_zero f), if_neg hn]
          rfl
  · split <;> exact Or.inl hpos'

theorem flipLeft_spread (h : Spread n (f + 1) s) (hpos : Position n (f + 1) s) :
    ∃ s', s.flipLeft = some s' ∧ Spread n f s' ∧ Position n f s' ∧ s'.lastDir = 0 := by
  have hlength := h.pages.length
  have hle := h.pages.le
  have hopen : s.currentPage > -1 := by
    obtain ⟨-, hpage⟩ | ⟨-, hpage, -⟩ := hpos <;> omega
  have hmove : (State.track (-1) s).move (-1) 0 =
      { State.track (-1) s with currentPage := f } := move_left hpos
  have hturn := @turn_eq { State.track (-1) s with currentPage := f } f 1 rfl
    (hlength.symm ▸ hle)
  have htracker : s.tracker + -1 = (f : ℤ) := by
    rw [h.tracker, Int.natCast_succ, Int.add_neg_cancel_right]
  have hpages := h.pages.flipLeft
  have hpos' : (0 : ℤ) = 0 ∧ (f : ℤ) - 1 = f - 1 ∧ f < n := ⟨rfl, rfl, hle⟩
  have hlast : (s.flipped ++ [s.tracker + -1]).getLastD 0 = f := by
    rw [List.getLastD_concat, htracker]
  have hback : (f : ℤ) - 1 = -1 ↔ f = 0 := by omega
  unfold State.flipLeft
  simp only
  rw [if_pos hopen, hmove, hturn, Option.map_some]
  refine ⟨_, rfl, ?_, ?_, rfl⟩
  · split
    · next hend =>
        have hf : f = 0 := hback.mp hend
        refine ⟨hpages, htracker, hlast, ?_, ?_, ?_⟩
        · exact (decide_eq_false (by omega)).symm
        · exact (decide_eq_true hle).symm
        · rw [if_pos hf]
          rfl
    · next hend =>
        have hf : f ≠ 0 := fun hf => hend (hback.mpr hf)
        refine ⟨hpages, htracker, hlast, ?_, ?_, ?_⟩
        · exact (decide_eq_true (Nat.pos_of_ne_zero hf)).symm
        · exact (decide_eq_true hle).symm
        · rw [if_neg hf, if_neg (Nat.ne_of_lt hle)]
          rfl
  · split <;> exact Or.inr hpos'

/-- The book has been touched. Before that there is no page that could be
flipped back, although `currentPage` is a page. -/
structure Open (n f : ℕ) (s : State) : Prop where
  spread : Spread n f s
  position : Position n f s
  touched : s.lastDir = 0 ∨ 0 < f

theorem open_flipRight (hn : 0 < n) (h : Spread n f s) (hpos : Position n f s) :
    ∃ s', step s .flipRight = some s' ∧ Open n (min n (f + 1)) s' := by
  obtain hf | hf := Nat.lt_or_ge f n
  · obtain ⟨s', hstep, hspread, hpos'⟩ := flipRight_spread h hpos hf
    rw [Nat.min_eq_right hf]
    exact ⟨s', hstep, hspread, hpos', Or.inr (Nat.succ_pos f)⟩
  · obtain rfl := Nat.le_antisymm h.pages.le hf
    rw [Nat.min_eq_left (Nat.le_succ f)]
    obtain ⟨hdir, hpage⟩ | ⟨-, -, hlt⟩ := hpos
    · have hclosed : ¬s.currentPage < s.pageArray.length := by
        rw [hpage, h.pages.length]
        exact Int.lt_irrefl _
      have hstep : step s .flipRight = some { s with butLeft := true, lastDir := 1 } :=
        if_neg hclosed
      refine ⟨_, hstep, ⟨h.pages, h.tracker, h.announced, ?_, h.butRight, h.place⟩,
        Or.inl ⟨rfl, hpage⟩, Or.inr hn⟩
      exact (decide_eq_true hn).symm
    · exact absurd hlt (lt_irrefl f)

theorem open_flipLeft (h : Open n f s) :
    ∃ s', step s .flipLeft = some s' ∧ Open n (f - 1) s' := by
  cases f with
  | zero =>
      obtain ⟨hdir, hpage⟩ : s.lastDir = 0 ∧ s.currentPage = -1 := by
        obtain ⟨hdir, -⟩ | ⟨hdir, hpage, -⟩ := h.position
        · obtain hdir' | hpos := h.touched
          · exact absurd (hdir.symm.trans hdir') Int.one_ne_zero
          · exact absurd hpos (lt_irrefl 0)
        · exact ⟨hdir, hpage⟩
      have hclosed : ¬s.currentPage > -1 := by
        rw [hpage]
        exact Int.lt_irrefl _
      have hstep : step s .flipLeft = some { s with lastDir := 0 } := if_neg hclosed
      refine ⟨_, hstep, ?_⟩
      rw [← hdir]
      exact h
  | succ f =>
      obtain ⟨s', hstep, hspread, hpos, hdir⟩ := flipLeft_spread h.spread h.position
      exact ⟨s', hstep, hspread, hpos, Or.inl hdir⟩

theorem spread_createPages (hn : 0 < n) : Spread n 0 (createPages n) where
  pages := by
    refine ⟨Nat.zero_le n, rfl, List.reverse_perm _, ?_, ?_⟩
    · rw [List.filter_eq_nil_iff.mpr, List.range_zero]
      intro a _
      rw [decide_eq_true_eq]
      exact Nat.not_lt_zero a
    · rw [List.filter_eq_self.mpr, Nat.sub_zero, ← List.range_eq_range']
      · rfl
      · exact fun a _ => decide_eq_true (Nat.zero_le a)
  tracker := rfl
  announced := rfl
  butLeft := rfl
  butRight := (decide_eq_true hn).symm
  place := rfl

theorem turned_snoc (n : ℕ) (calls : List Call) (call : Call) :
    turned n (calls ++ [call]) =
      match call with
      | .flipRight => min n (turned n calls + 1)
      | .flipLeft => turned n calls - 1 := by
  rw [turned, List.foldl_append]
  rfl

/-- A first click on the left button fails: `lastDir` is 1 at first, so that
the page before the first one is looked for. The button is hidden then. -/
theorem first_flipLeft (n : ℕ) : step (createPages n) .flipLeft = none := by
  have hopen : (createPages n).currentPage > -1 := Int.negSucc_lt_zero 0
  have hmove : ((createPages n).track (-1)).move (-1) 0 =
      { (createPages n).track (-1) with currentPage := -1 } := if_pos Int.one_ne_zero
  rw [step, State.flipLeft, if_pos hopen, hmove, State.turn, if_neg, Option.map_none]
  exact fun h => absurd h.1 (Int.not_le.mpr (Int.negSucc_lt_zero 0))

/-- Every run that does not begin with a click to the left goes on, and leads
to where its clicks have led. -/
theorem run_open (hn : 0 < n) (calls : List Call) (hfirst : calls.head? ≠ some .flipLeft) :
    ∃ s, Runs.run step (createPages n) calls = some s ∧
      (calls = [] ∧ s = createPages n ∨ Open n (turned n calls) s) := by
  induction calls using List.reverseRecOn with
  | nil => exact ⟨_, rfl, Or.inl ⟨rfl, rfl⟩⟩
  | append_singleton calls call ih =>
      rw [turned_snoc]
      have hbefore : calls.head? ≠ some .flipLeft := by
        intro h
        rw [List.head?_append, h] at hfirst
        exact hfirst rfl
      obtain ⟨s, hrun, ⟨rfl, rfl⟩ | hopen⟩ := ih hbefore
      · cases call with
        | flipRight =>
            obtain ⟨s', hstep, hopen⟩ := open_flipRight hn (spread_createPages hn)
              (Or.inl ⟨rfl, rfl⟩)
            exact ⟨s', Runs.run_singleton.mpr hstep, Or.inr hopen⟩
        | flipLeft => exact absurd rfl hfirst
      · cases call with
        | flipRight =>
            obtain ⟨s', hstep, hopen'⟩ := open_flipRight hn hopen.spread hopen.position
            exact ⟨s', Runs.run_snoc.mpr ⟨s, hrun, hstep⟩, Or.inr hopen'⟩
        | flipLeft =>
            obtain ⟨s', hstep, hopen'⟩ := open_flipLeft hopen
            exact ⟨s', Runs.run_snoc.mpr ⟨s, hrun, hstep⟩, Or.inr hopen'⟩

/-- **The book lies open where the clicks have led**, with the pages in order
on both sides, the buttons and the place as they should be, and the last number
announced. Only a first click to the left is an error. -/
theorem flips_spread (hn : 0 < n) (calls : List Call) :
    (Runs.run step (createPages n) calls = none ↔ calls.head? = some .flipLeft) ∧
      ∀ s, Runs.run step (createPages n) calls = some s → Spread n (turned n calls) s := by
  by_cases hfirst : calls.head? = some .flipLeft
  · obtain ⟨rest, rfl⟩ := List.head?_eq_some_iff.mp hfirst
    have hnone : Runs.run step (createPages n) (.flipLeft :: rest) = none := by
      rw [Runs.run, first_flipLeft, Option.bind_none]
    rw [hnone]
    exact ⟨iff_of_true rfl rfl, fun s hs => absurd hs.symm (Option.some_ne_none s)⟩
  · obtain ⟨s, hrun, hs⟩ := run_open hn calls hfirst
    rw [hrun]
    refine ⟨iff_of_false (Option.some_ne_none s) hfirst, ?_⟩
    intro t ht
    obtain rfl := Option.some.inj ht
    rcases hs with ⟨rfl, rfl⟩ | hopen
    · exact spread_createPages hn
    · exact hopen.spread

/-- Both pages of a book, and one of them back. -/
theorem flips_spread_two : ∃ s, Runs.run step (createPages 2) [.flipRight, .flipRight, .flipLeft] =
    some s ∧ Spread 2 1 s := by
  refine ⟨_, rfl, (flips_spread Nat.two_pos [.flipRight, .flipRight, .flipLeft]).2 _ rfl⟩

end FlipBook

namespace ShuffleBook

/-! ## The shuffle book -/

variable {φ : Type*}

inductive Tween (φ : Type*) where
  /-- The child goes up, and `shuffled` gets the photo. -/
  | up (child val : φ)
  /-- The photo comes back, and then `shuffleDone`. -/
  | back (val : φ)

/-- The fields of a shuffle book, its children and the animation. Photos are
compared only as objects. -/
structure State (φ : Type*) where
  shuffleArray : List φ
  /-- The last one is on top. -/
  children : List φ
  currentPage : ℕ
  shuffeling : Bool
  tween : Option (Tween φ)
  /-- The children that are not where they were. -/
  raised : List φ
  /-- The page of each `FLIPPED` event. -/
  flipped : List ℕ

namespace State

/-- A click on the photos. The photo on top goes up, and the photo at
`currentPage` is what `shuffled` will get; that they are the same is part of
the invariant. -/
def handleDown (s : State φ) : Option (State φ) :=
  if s.shuffeling then some s
  else
    let s := { s with shuffeling := true, flipped := s.flipped ++ [s.currentPage] }
    match s.children.getLast?, s.shuffleArray[s.currentPage]? with
    | some child, some val => some { s with tween := some (.up child val) }
    | _, _ => none

/-- A photo that has gone up is put under the others and comes back there. -/
def shuffled [DecidableEq φ] (val : φ) (s : State φ) : State φ :=
  let s := { s with children := DisplayList.toBottom val s.children }
  let s := { s with currentPage := s.currentPage + 1 }
  let s :=
    if (s.currentPage : ℤ) > s.shuffleArray.length - 1 then { s with currentPage := 0 } else s
  { s with tween := some (.back val) }

def shuffleDone (s : State φ) : State φ := { s with shuffeling := false }

/-- The animation ends, and its `onComplete` is called. -/
def complete [DecidableEq φ] (s : State φ) : Option (State φ) :=
  match s.tween with
  | some (.up child val) =>
      some ({ s with tween := none, raised := child :: s.raised }.shuffled val)
  | some (.back val) =>
      some { s with tween := none, raised := s.raised.filter (· ≠ val) }.shuffleDone
  | none => none

end State

def new (photos : List φ) : State φ where
  shuffleArray := photos
  children := photos.reverse
  currentPage := 0
  shuffeling := false
  tween := none
  raised := []
  flipped := []

inductive Event where
  | handleDown
  | complete

def step [DecidableEq φ] (s : State φ) : Event → Option (State φ)
  | .handleDown => s.handleDown
  | .complete => s.complete

variable {photos : List φ} {s s' : State φ}

/-- What an animation that is under way has done, and what it has still to do.
While it goes up the current page is the one that was announced, afterwards it
is the next one. -/
def Underway (photos : List φ) (s : State φ) : Option (Tween φ) → Prop
  | none => s.shuffeling = false ∧ s.raised = [] ∧
      s.currentPage = s.flipped.length % photos.length
  | some (.up child val) => s.shuffeling = true ∧ s.raised = [] ∧ child = val ∧
      photos[s.currentPage]? = some val ∧
      (s.currentPage + 1) % photos.length = s.flipped.length % photos.length
  | some (.back val) => s.shuffeling = true ∧ s.raised = [val] ∧
      s.currentPage = s.flipped.length % photos.length

/-- The photos lie in turn from the current one on, seen from above, and the
events have named them in turn; the rest depends on the animation. -/
structure Inv (photos : List φ) (s : State φ) : Prop where
  array : s.shuffleArray = photos
  page : s.currentPage < photos.length
  order : s.children.reverse = photos.rotate s.currentPage
  flipped : s.flipped = (List.range s.flipped.length).map (· % photos.length)
  underway : Underway photos s s.tween

theorem getLast?_children (h : Inv photos s) : s.children.getLast? = photos[s.currentPage]? := by
  rw [← List.head?_reverse, h.order, List.head?_rotate h.page]

theorem inv_handleDown (h : Inv photos s) : ∃ s', s.handleDown = some s' ∧ Inv photos s' := by
  unfold State.handleDown
  split
  · exact ⟨s, rfl, h⟩
  · next hidle =>
      obtain ⟨val, hval⟩ : ∃ val, photos[s.currentPage]? = some val :=
        ⟨_, List.getElem?_eq_getElem h.page⟩
      have hunder := h.underway
      cases htween : s.tween with
      | some tween =>
          rw [htween] at hunder
          cases tween <;> exact absurd hunder.1 hidle
      | none =>
          rw [htween] at hunder
          obtain ⟨-, hraised, hpage⟩ := hunder
          simp only
          rw [getLast?_children h, h.array, hval]
          refine ⟨_, rfl, rfl, h.page, h.order, ?_, rfl, hraised, rfl, hval, ?_⟩
          · simp only
            rw [List.length_append, List.length_singleton, List.range_succ, List.map_append,
              ← h.flipped, hpage]
            rfl
          · simp only
            rw [hpage, List.length_append, List.length_singleton, Nat.mod_add_mod]

variable [DecidableEq φ]

/-- The photo on top has gone up: it goes under the others, and the next
one is on top. -/
theorem inv_shuffled (hnodup : photos.Nodup) (h : Inv photos s) {child val : φ}
    (htween : s.tween = some (.up child val)) :
    Inv photos ({ s with tween := none, raised := child :: s.raised }.shuffled val) := by
  have hunder := h.underway
  rw [htween] at hunder
  obtain ⟨hon, hraised, rfl, hval, hnext⟩ := hunder
  have hpage := h.page
  have hnodup' : s.children.Nodup := by
    rw [← List.nodup_reverse, h.order]
    exact List.nodup_rotate.mpr hnodup
  obtain ⟨top, htop⟩ : ∃ top, s.children.reverse = child :: top := by
    rw [← List.head?_eq_some_iff, List.head?_reverse, getLast?_children h, hval]
  have horder : (DisplayList.toBottom child s.children).reverse =
      photos.rotate (s.currentPage + 1) := by
    rw [DisplayList.reverse_toBottom hnodup' htop, h.order, List.rotate_rotate]
  unfold State.shuffled
  simp only
  rw [h.array]
  split
  · next hend =>
      have hlength : s.currentPage + 1 = photos.length := by omega
      refine ⟨rfl, Nat.zero_lt_of_lt hpage, ?_, h.flipped, hon, ?_, ?_⟩
      · rw [horder, hlength, List.rotate_length, List.rotate_zero]
      · rw [hraised]
      · rw [← hnext, hlength, Nat.mod_self]
  · next hmore =>
      have hlt : s.currentPage + 1 < photos.length := by omega
      refine ⟨rfl, hlt, horder, h.flipped, hon, ?_, ?_⟩
      · rw [hraised]
      · rw [← hnext, Nat.mod_eq_of_lt hlt]

theorem inv_complete (hnodup : photos.Nodup) (h : Inv photos s) (hstep : s.complete = some s') :
    Inv photos s' := by
  unfold State.complete at hstep
  split at hstep
  · next child val htween =>
      obtain rfl := Option.some.inj hstep
      exact inv_shuffled hnodup h htween
  · next val htween =>
      obtain rfl := Option.some.inj hstep
      have hunder := h.underway
      rw [htween] at hunder
      obtain ⟨-, hraised, hpage⟩ := hunder
      refine ⟨h.array, h.page, h.order, h.flipped, rfl, ?_, hpage⟩
      show s.raised.filter (· ≠ val) = []
      rw [hraised, List.filter_eq_nil_iff]
      intro a ha
      rw [List.mem_singleton.mp ha, decide_eq_true_eq]
      exact not_not_intro rfl
  · cases hstep

/-- **The photos come up in turn**: seen from above they lie in their own
order from the current one on, the events name them one after the other,
and no click is an error. -/
theorem shuffles_in_turn {evs : List Event} (hne : photos ≠ []) (hnodup : photos.Nodup)
    (hrun : Runs.run step (new photos) evs = some s) :
    s.children.reverse = photos.rotate s.currentPage ∧
    s.flipped = (List.range s.flipped.length).map (· % photos.length) ∧
    (s.shuffeling = false → s.raised = [] ∧ s.currentPage = s.flipped.length % photos.length) ∧
    s.handleDown ≠ none := by
  have hstart : Inv photos (new photos) := by
    refine ⟨rfl, List.length_pos_iff.mpr hne, ?_, rfl, rfl, rfl, (Nat.zero_mod _).symm⟩
    exact (List.reverse_reverse photos).trans (List.rotate_zero photos).symm
  have h : Inv photos s := by
    refine Runs.run_invariant (Inv photos) ?_ hstart hrun
    rintro t (_ | _) u ht hstep
    · obtain ⟨t', hdown, ht'⟩ := inv_handleDown ht
      obtain rfl := Option.some.inj (hdown.symm.trans hstep)
      exact ht'
    · exact inv_complete hnodup ht hstep
  refine ⟨h.order, h.flipped, ?_, ?_⟩
  · intro hidle
    have hunder := h.underway
    cases htween : s.tween with
    | none =>
        rw [htween] at hunder
        exact ⟨hunder.2.1, hunder.2.2⟩
    | some tween =>
        rw [htween] at hunder
        cases tween <;> exact absurd (hidle.symm.trans hunder.1) Bool.false_ne_true
  · obtain ⟨s', hdown, -⟩ := inv_handleDown h
    rw [hdown]
    exact nofun

/-- Two photos; the click on the one that is under way does nothing. -/
theorem shuffles_in_turn_two : ∃ s, Runs.run step (new ["a.jpg", "b.jpg"])
      [.handleDown, .handleDown, .complete, .complete] = some s ∧
    s.children.reverse = ["a.jpg", "b.jpg"].rotate s.currentPage ∧
    s.flipped = (List.range s.flipped.length).map (· % ["a.jpg", "b.jpg"].length) ∧
    (s.shuffeling = false →
      s.raised = [] ∧ s.currentPage = s.flipped.length % ["a.jpg", "b.jpg"].length) ∧
    s.handleDown ≠ none := by
  refine ⟨_, rfl, @shuffles_in_turn _ ["a.jpg", "b.jpg"] _ _
    [.handleDown, .handleDown, .complete, .complete] (List.cons_ne_nil _ _) ?_ rfl⟩
  simp

end ShuffleBook

end Resources
