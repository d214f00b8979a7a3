import Resources.Paginator

/-!
# The window of numbered buttons

The ten buttons carry consecutive numbers, and `Displays s first` says
that these are `first + 1, …, first + 10`. `checkIndex_spec` is what a
step does: the window moves to the index when the index is in the middle
of the list, and stays where it is otherwise.

Where the window is can therefore be read off the indices that the events
have led to, without a look at any state: `windowStart` folds `followed`
over them. The window follows the index (`Follows`) through a run exactly
when the list fills it and each of these indices is in the middle of the
list or in the window that the ones before it have left: `follows_iff`.
-/

namespace Resources

namespace Paginator

open State

variable {Item : Type*} {C : ItemClass Item}

/-- The numbers `first + 1, …, first + 10`. -/
def window (first : ℕ) : List ℕ := List.range' (first + 1) limit

theorem mem_window {first k : ℕ} : k ∈ window first ↔ first < k ∧ k ≤ first + 10 := by
  simp only [window, limit, List.mem_range'_1]
  omega

/-- The labels of the numbered buttons. -/
def State.infos (C : ItemClass Item) (s : State Item) : List Info :=
  s.itemArray.map fun child => C.info child.item

/-- The state between two events, with `first` entries before the window. -/
structure Displays (C : ItemClass Item) (s : State Item) (first : ℕ) : Prop where
  holder : s.holder = s.itemArray
  infos : s.infos C = (window first).map .number
  grey : ∀ child ∈ s.itemArray, C.grey child.item = false
  prev : C.info s.prev = .string "<"
  next : C.info s.next = .string ">"
  current : s.current = none
  /-- The window has moved only to the middle of the list. -/
  moved : first = 0 ∨ first + 10 ≤ s.totalItem

/-! ## Building the buttons -/

/-- The loop appends a button for each number to the row and to its
display. The buttons that it appends are new, so they are not greyed out,
and the loop changes nothing else. -/
theorem addItems_eq (laws : C.Lawful) : ∀ (is : List ℕ) (s : State Item),
    s.holder = s.itemArray → (∀ child ∈ s.itemArray, C.grey child.item = false) →
    ∃ items xPos created,
      is.foldl (addItem C) s =
          { s with itemArray := items, holder := items, xPos := xPos, created := created }
        ∧ items.map (fun child => C.info child.item) =
            s.infos C ++ is.map (fun i => .number (i + 1))
        ∧ ∀ child ∈ items, C.grey child.item = false
  | [], s, hholder, hgrey => by
      refine ⟨s.itemArray, s.xPos, s.created, ?_, ?_, hgrey⟩
      · cases s
        cases hholder
        rfl
      · rw [List.map_nil, List.append_nil, State.infos]
  | i :: is, s, hholder, hgrey => by
      have hholder' : (s.addItem C i).holder = (s.addItem C i).itemArray := by
        rw [addItem, hholder]
      have hgrey' : ∀ child ∈ (s.addItem C i).itemArray, C.grey child.item = false := by
        intro child hchild
        rw [addItem, List.mem_append, List.mem_singleton] at hchild
        rcases hchild with hchild | rfl
        · exact hgrey child hchild
        · exact (laws.grey_setX _ _).trans (laws.grey_new _)
      have hinfos : (s.addItem C i).infos C = s.infos C ++ [.number (i + 1)] := by
        rw [State.infos, addItem, List.map_append, List.map_singleton, laws.info_setX,
          laws.info_new, State.infos]
      obtain ⟨items, xPos, created, heq, hitems, hall⟩ := addItems_eq laws is _ hholder' hgrey'
      refine ⟨items, xPos, created, ?_, ?_, hall⟩
      · rw [List.foldl_cons, heq]
        rfl
      · rw [hitems, hinfos, List.append_assoc, List.map_cons, List.singleton_append]

/-- All buttons are children of `holder`, so none of the removals throws. -/
theorem removeAll (items : List (Ref Item)) : items.foldlM removeChild items = some [] := by
  induction items with
  | nil => rfl
  | cons child items ih =>
      have hchild : ((child :: items).any fun other => other.id == child.id) = true := by simp
      have herase : (child :: items).eraseP (fun other => other.id == child.id) = items := by simp
      rw [List.foldlM_cons, removeChild, if_pos hchild, herase]
      exact ih

theorem map_window (first : ℕ) :
    (List.range' first limit).map (fun i => Info.number (i + 1)) = (window first).map .number :=
  rfl

/-- What the constructor leaves: the buttons `1, …, 10`, with `<` greyed
out and `>` not. -/
theorem new_eq (laws : C.Lawful) (totalItem : ℕ) :
    ∃ items xPos created,
      new C totalItem =
          { itemArray := items, itemIndex := 0, totalItem := totalItem, xPos := xPos
            holder := items, prev := C.greyOut none (C.new (.string "<"))
            next := C.setX xPos (C.new (.string ">")), current := none, created := created }
        ∧ items.map (fun child => C.info child.item) = (window 0).map .number
        ∧ ∀ child ∈ items, C.grey child.item = false := by
  obtain ⟨items, xPos, created, heq, hinfos, hgrey⟩ := addItems_eq laws (List.range limit)
    { itemArray := [], itemIndex := 0, totalItem := totalItem
      xPos := uint (C.width (C.new (.string "<")) + padding), holder := []
      prev := C.new (.string "<"), next := C.new (.string ">"), current := none, created := 2 }
    rfl nofun
  refine ⟨items, xPos, created, ?_, ?_, hgrey⟩
  · simp only [new, heq, updateCurrentItem]
  · rw [← map_window, ← List.range_eq_range']
    exact hinfos

theorem displays_new (laws : C.Lawful) (totalItem : ℕ) : Displays C (new C totalItem) 0 := by
  obtain ⟨items, xPos, created, heq, hinfos, hgrey⟩ := new_eq laws totalItem
  rw [heq]
  refine ⟨rfl, hinfos, hgrey, ?_, ?_, rfl, Or.inl rfl⟩
  · exact (laws.info_greyOut _ _).trans (laws.info_new _)
  · exact (laws.info_setX _ _).trans (laws.info_new _)

/-- `rebuild` shows the numbers from `itemIndex - 3` to `itemIndex + 6`. -/
theorem rebuild_spec (laws : C.Lawful) {s : State Item} {first : ℕ} (h : Displays C s first)
    (hmid : Middle s.totalItem s.itemIndex) :
    ∃ s', s.rebuild C = some s' ∧ Displays C s' (s.itemIndex - 4).toNat
      ∧ s'.itemIndex = s.itemIndex ∧ s'.totalItem = s.totalItem
      ∧ s'.prev = s.prev ∧ s'.next = s.next := by
  obtain ⟨items, xPos, created, heq, hinfos, hgrey⟩ := addItems_eq laws
    (List.range' (s.itemIndex - 4).toNat limit)
    { s with holder := [], itemArray := [], xPos := uint (C.width s.prev + padding) }
    rfl nofun
  refine ⟨{ s with itemArray := items, holder := items, xPos := xPos, created := created }, ?_, ?_,
    rfl, rfl, rfl, rfl⟩
  · rw [rebuild, h.holder, removeAll, ← heq]
    simp [limit]
  · refine ⟨rfl, ?_, hgrey, h.prev, h.next, h.current, Or.inr ?_⟩
    · rw [← map_window]
      exact hinfos
    · obtain ⟨hlow, hhigh⟩ := hmid
      show (s.itemIndex - 4).toNat + 10 ≤ s.totalItem
      omega

/-! ## One step -/

/-- Where the window is after the index has become `i`. -/
def followed (totalItem : ℕ) (i : ℤ) (first : ℕ) : ℕ :=
  if Middle totalItem i then (i - 4).toNat else first

/-- The index is `i`, and the rest is as `checkIndex` leaves it. -/
structure Moved (C : ItemClass Item) (total : ℕ) (i : ℤ) (first : ℕ) (s : State Item) : Prop where
  displays : Displays C s (followed total i first)
  itemIndex : s.itemIndex = i
  totalItem : s.totalItem = total
  next_grey : C.grey s.next = true ↔ (total : ℤ) - 1 ≤ i
  prev_grey : C.grey s.prev = true ↔ i < (total : ℤ) - 1 ∧ i ≤ 0

/-- There is no current item in any run, so that nothing is greyed out in the
row. -/
theorem updateCurrentItem_eq {s : State Item} {first : ℕ} (h : Displays C s first) :
    s.updateCurrentItem C = s := by
  rw [updateCurrentItem, h.current]

/-- Greying out an end button, once both are reset. The two conditions of
the source exclude each other: at an index that is both the last and the
first, `<` stays as it is. -/
theorem greyEnd_moved (laws : C.Lawful) {s : State Item} {i : ℤ} {first : ℕ}
    (h : Displays C s (followed s.totalItem i first)) (hindex : s.itemIndex = i)
    (hprev : C.grey s.prev = false) (hnext : C.grey s.next = false) :
    Moved C s.totalItem i first (s.greyEnd C) := by
  subst hindex
  unfold greyEnd
  split
  · next hhigh =>
      have hinfo : C.info (C.greyOut none s.next) = .string ">" :=
        (laws.info_greyOut _ _).trans h.next
      refine ⟨⟨h.holder, h.infos, h.grey, h.prev, hinfo, h.current, h.moved⟩, rfl, rfl, ?_, ?_⟩
      · exact ⟨fun _ => hhigh, fun _ => laws.grey_greyOut _⟩
      · show C.grey s.prev = true ↔ _
        rw [hprev]
        exact ⟨nofun, fun hlow => absurd hlow.1 (not_lt.mpr hhigh)⟩
  · next hhigh =>
      have hlt := not_le.mp hhigh
      split
      · next hlow =>
          have hinfo : C.info (C.greyOut none s.prev) = .string "<" :=
            (laws.info_greyOut _ _).trans h.prev
          refine ⟨⟨h.holder, h.infos, h.grey, hinfo, h.next, h.current, h.moved⟩, rfl, rfl, ?_, ?_⟩
          · show C.grey s.next = true ↔ _
            rw [hnext]
            exact ⟨nofun, fun hle => absurd hle hhigh⟩
          · exact ⟨fun _ => ⟨hlt, hlow⟩, fun _ => laws.grey_greyOut _⟩
      · next hlow =>
          refine ⟨h, rfl, rfl, ?_, ?_⟩
          · rw [hnext]
            exact ⟨nofun, fun hle => absurd hle hhigh⟩
          · rw [hprev]
            exact ⟨nofun, fun hle => absurd hle.2 hlow⟩

theorem displays_reset (laws : C.Lawful) {s : State Item} {first : ℕ} (h : Displays C s first) :
    Displays C (s.reset C) first :=
  ⟨h.holder, h.infos, h.grey, (laws.info_greyOut _ _).trans h.prev,
    (laws.info_greyOut _ _).trans h.next, h.current, h.moved⟩

/-- **Spec of `checkIndex`.** It does not throw, and moves the window to where
`followed` says. -/
theorem checkIndex_spec (laws : C.Lawful) {s : State Item} {first : ℕ} (h : Displays C s first) :
    ∃ s', s.checkIndex C = some s' ∧ Moved C s.totalItem s.itemIndex first s' := by
  have hreset := displays_reset laws h
  have hprev : C.grey (s.reset C).prev = false := laws.grey_greyOut_false _
  have hnext : C.grey (s.reset C).next = false := laws.grey_greyOut_false _
  simp only [checkIndex, Option.bind_eq_bind]
  by_cases hmid : Middle (s.reset C).totalItem (s.reset C).itemIndex
  · obtain ⟨t, ht, hdisp, hindex, htotal, hprev', hnext'⟩ := rebuild_spec laws hreset hmid
    have hmoved : Moved C t.totalItem (s.reset C).itemIndex first (t.greyEnd C) := by
      refine greyEnd_moved laws ?_ hindex (by rw [hprev', hprev]) (by rw [hnext', hnext])
      rw [followed, htotal, if_pos hmid]
      exact hdisp
    rw [if_pos hmid, ht, Option.bind_some, updateCurrentItem_eq hmoved.displays]
    rw [htotal] at hmoved
    exact ⟨_, rfl, hmoved⟩
  · have hmoved : Moved C (s.reset C).totalItem (s.reset C).itemIndex first
        ((s.reset C).greyEnd C) := by
      refine greyEnd_moved laws ?_ rfl hprev hnext
      rw [followed, if_neg hmid]
      exact hreset
    rw [if_neg hmid, Option.bind_some, updateCurrentItem_eq hmoved.displays]
    exact ⟨_, rfl, hmoved⟩

/-- The index that an event leads to from the index `i`. -/
def target (i : ℤ) : Event → ℤ
  | .setIndex val => val
  | .itemPick (.number n) => n - 1
  | .itemPick (.string label) => if label = "<" then i - 1 else i + 1

theorem itemPicked_eq (s : State Item) (info : Info) :
    s.itemPicked C info =
      { s with itemIndex := target s.itemIndex (.itemPick info) }.checkIndex C := by
  cases info with
  | number n => rfl
  | string label =>
      by_cases hlabel : label = "<"
      · simp only [itemPicked, target, if_pos hlabel]
      · simp only [itemPicked, target, if_neg hlabel]

/-- `set index` does not throw. -/
theorem setIndex_isSome (laws : C.Lawful) {s : State Item} {first : ℕ} (h : Displays C s first)
    (val : ℤ) : ∃ s', s.setIndex C val = some s' ∧ Moved C s.totalItem val first s' :=
  checkIndex_spec laws
    ⟨h.holder, h.infos, h.grey, h.prev, h.next, h.current, h.moved⟩

/-- The handler of `ITEM_PICK` does not throw either. -/
theorem itemPicked_isSome (laws : C.Lawful) {s : State Item} {first : ℕ} (h : Displays C s first)
    (info : Info) :
    ∃ s', s.itemPicked C info = some s'
      ∧ Moved C s.totalItem (target s.itemIndex (.itemPick info)) first s' := by
  rw [itemPicked_eq]
  exact setIndex_isSome laws h _

/-- **Step lemma.** An event leads to its index, and the window to where
`followed` has it. -/
theorem step_moved (laws : C.Lawful) {s s' : State Item} {e : Event} {first : ℕ}
    (h : Displays C s first) (hstep : step C s e = some s') :
    Moved C s.totalItem (target s.itemIndex e) first s' := by
  cases e with
  | setIndex val =>
      obtain ⟨t, ht, hmoved⟩ := setIndex_isSome laws h val
      obtain rfl := Option.some.inj (ht.symm.trans hstep)
      exact hmoved
  | itemPick info =>
      rw [step, pick] at hstep
      split at hstep
      · obtain ⟨t, ht, hmoved⟩ := itemPicked_isSome laws h info
        obtain rfl := Option.some.inj (ht.symm.trans hstep)
        exact hmoved
      · cases hstep

/-! ## Following the index -/

/-- The entry `i` of the list has its button on display. -/
def Shown (C : ItemClass Item) (s : State Item) (i : ℤ) : Prop :=
  ∃ child ∈ s.itemArray, ∃ k : ℕ, C.info child.item = .number k ∧ (k : ℤ) = i + 1

/-- What the buttons should show: consecutive entries of the list, with the
index among them. -/
structure Follows (C : ItemClass Item) (s : State Item) : Prop where
  consecutive : ∃ first count, s.infos C = (List.range' first count).map .number
  entries : ∀ child ∈ s.itemArray,
    ∃ k, C.info child.item = .number k ∧ 1 ≤ k ∧ k ≤ s.totalItem
  current : Shown C s s.itemIndex

theorem Displays.mem_iff {s : State Item} {first k : ℕ} (h : Displays C s first) :
    (∃ child ∈ s.itemArray, C.info child.item = .number k) ↔ first < k ∧ k ≤ first + 10 := by
  rw [← mem_window]
  have hmem : Info.number k ∈ s.infos C ↔ k ∈ window first := by
    rw [h.infos, List.mem_map]
    constructor
    · rintro ⟨j, hj, hjk⟩
      obtain rfl := Info.number.inj hjk
      exact hj
    · exact fun hk => ⟨k, hk, rfl⟩
  rw [← hmem, State.infos, List.mem_map]

theorem Displays.shown_iff {s : State Item} {first : ℕ} (h : Displays C s first) (i : ℤ) :
    Shown C s i ↔ (first : ℤ) ≤ i ∧ i < first + 10 := by
  constructor
  · rintro ⟨child, hchild, k, hinfo, hk⟩
    have hmem := h.mem_iff.mp ⟨child, hchild, hinfo⟩
    omega
  · intro hi
    obtain ⟨child, hchild, hinfo⟩ := h.mem_iff.mpr (show first < (i + 1).toNat ∧ _ by omega)
    exact ⟨child, hchild, _, hinfo, by omega⟩

/-- The numbers are consecutive in any case. -/
theorem Displays.follows_iff_shown {s : State Item} {first : ℕ} (h : Displays C s first) :
    Follows C s ↔ first + 10 ≤ s.totalItem ∧ Shown C s s.itemIndex := by
  constructor
  · intro hf
    refine ⟨?_, hf.current⟩
    obtain ⟨child, hchild, hinfo⟩ :=
      h.mem_iff.mpr (show first < first + 10 ∧ first + 10 ≤ first + 10 by omega)
    obtain ⟨k, hk, -, hle⟩ := hf.entries child hchild
    obtain rfl := Info.number.inj (hinfo.symm.trans hk)
    exact hle
  · rintro ⟨hfull, hcur⟩
    refine ⟨⟨first + 1, limit, h.infos⟩, ?_, hcur⟩
    intro child hchild
    have hmem : C.info child.item ∈ s.infos C := List.mem_map_of_mem hchild
    rw [h.infos, List.mem_map] at hmem
    obtain ⟨k, hk, hinfo⟩ := hmem
    rw [mem_window] at hk
    exact ⟨k, hinfo.symm, by omega, by omega⟩

/-! ## The indices of a run -/

/-- The indices that the events lead to, one after the other, from the
index `i`. -/
def indices : ℤ → List Event → List ℤ
  | _, [] => []
  | i, e :: es => target i e :: indices (target i e) es

/-- Where the window is after the index has become each of `is` in turn:
four entries before the last of them that is in the middle of the list,
and at the beginning when none is. -/
def windowStart (totalItem : ℕ) (is : List ℤ) : ℕ :=
  is.foldl (fun first i => followed totalItem i first) 0

/-- The list fills the window, and the index `i`, reached after the indices
`is`, is in the middle of the list or in the window that these have left. -/
def Reaches (totalItem : ℕ) (is : List ℤ) (i : ℤ) : Prop :=
  limit ≤ totalItem ∧ (Middle totalItem i ∨
    (windowStart totalItem is : ℤ) ≤ i ∧ i < windowStart totalItem is + limit)

theorem windowStart_snoc (totalItem : ℕ) (is : List ℤ) (i : ℤ) :
    windowStart totalItem (is ++ [i]) = followed totalItem i (windowStart totalItem is) := by
  rw [windowStart, List.foldl_append, List.foldl_cons, List.foldl_nil, windowStart]

/-- The window is at the index after a step into the middle, and has to be
there already before any other step. -/
theorem follows_step {total : ℕ} {is : List ℤ} {i : ℤ} {s : State Item}
    (hm : Moved C total i (windowStart total is) s)
    (hmoved : windowStart total is = 0 ∨ windowStart total is + 10 ≤ total) :
    Follows C s ↔ Reaches total is i := by
  rw [hm.displays.follows_iff_shown, hm.displays.shown_iff, hm.itemIndex, hm.totalItem, Reaches]
  unfold followed limit
  by_cases hmid : Middle total i
  · obtain ⟨hlow, hhigh⟩ := id hmid
    rw [if_pos hmid]
    simp only [hmid, true_or, and_true]
    omega
  · rw [if_neg hmid]
    simp only [hmid, false_or]
    omega

/-- A condition on each index of a list and those before it, taken apart
at the first of them. -/
theorem forall_split_cons {P : List ℤ → ℤ → Prop} {j : ℤ} {js : List ℤ} :
    (∀ is i rest, j :: js = is ++ i :: rest → P is i) ↔
      P [] j ∧ ∀ is i rest, js = is ++ i :: rest → P (j :: is) i := by
  constructor
  · intro h
    refine ⟨h [] j js rfl, ?_⟩
    intro is i rest heq
    exact h (j :: is) i rest (by rw [heq, List.cons_append])
  · rintro ⟨hhead, htail⟩ is i rest heq
    cases is with
    | nil =>
        obtain ⟨rfl, -⟩ := List.cons.inj heq
        exact hhead
    | cons k is =>
        obtain ⟨rfl, heq'⟩ := List.cons.inj heq
        exact htail is i rest heq'

/-- The rest of a run, after a beginning that led to the indices `past`. -/
theorem follows_rest (laws : C.Lawful) {total : ℕ} :
    ∀ {evs : List Event} {past : List ℤ} {s u : State Item},
      Displays C s (windowStart total past) → s.totalItem = total →
      Runs.run (step C) s evs = some u →
      (Runs.EachStep (step C) (fun _ _ s' => Follows C s') s evs ↔
        ∀ is i rest, indices s.itemIndex evs = is ++ i :: rest → Reaches total (past ++ is) i)
  | [], _, _, _, _, _, _ => by
      refine iff_of_true Runs.eachStep_nil ?_
      intro is i rest heq
      cases is <;> cases heq
  | e :: evs, past, s, u, hdisp, htotal, hrun => by
      obtain ⟨t, hstep, hrest⟩ := Runs.run_cons.mp hrun
      have hm := step_moved laws hdisp hstep
      have hmoved := hdisp.moved
      rw [htotal] at hm hmoved
      -- the index that `e` leads to is the last one of the past from here on
      have hnext : Displays C t (windowStart total (past ++ [target s.itemIndex e])) := by
        rw [windowStart_snoc]
        exact hm.displays
      have ih := follows_rest laws hnext hm.totalItem hrest
      rw [hm.itemIndex] at ih
      rw [Runs.eachStep_cons hstep, ih, follows_step hm hmoved, indices, forall_split_cons,
        List.append_nil]
      simp only [List.append_assoc, List.singleton_append]

/-- **The window follows the index** through a run exactly when the list
has as many entries as the window has buttons and every index that the
events lead to is in the middle of the list, or among the ten entries from
the window's start as the indices before it have left it. The condition
mentions the events and the length of the list only. -/
theorem follows_iff (laws : C.Lawful) {totalItem : ℕ} {evs : List Event} {s : State Item}
    (hrun : Runs.run (step C) (new C totalItem) evs = some s) :
    Runs.EachStep (step C) (fun _ _ s' => Follows C s') (new C totalItem) evs ↔
      ∀ is i rest, indices 0 evs = is ++ i :: rest → Reaches totalItem is i := by
  obtain ⟨items, xPos, created, heq, -⟩ := new_eq laws totalItem
  have hindex : (new C totalItem).itemIndex = 0 := by rw [heq]
  have htotal : (new C totalItem).totalItem = totalItem := by rw [heq]
  have hshown : Displays C (new C totalItem) (windowStart totalItem []) :=
    displays_new laws totalItem
  have hiff := follows_rest laws hshown htotal hrun
  rw [hindex] at hiff
  exact hiff

/-- From the first entry to the button `7`, on by `>`, and by a jump back to
the first entry, whose button has left the window. -/
theorem follows_iff_two : ∃ s : State Button,
    Runs.run (step buttons) (new buttons 14)
        [.itemPick (.number 7), .itemPick (.string ">"), .setIndex 0] = some s
      ∧ (Runs.EachStep (step buttons) (fun _ _ s' => Follows buttons s') (new buttons 14)
            [.itemPick (.number 7), .itemPick (.string ">"), .setIndex 0] ↔
          ∀ is i rest, [6, 7, 0] = is ++ i :: rest → Reaches 14 is i) := by
  have hsome : (Runs.run (step buttons) (new buttons 14)
      [.itemPick (.number 7), .itemPick (.string ">"), .setIndex 0]).isSome = true := by
    decide +kernel
  obtain ⟨s, hrun⟩ := Option.isSome_iff_exists.mp hsome
  exact ⟨s, hrun, follows_iff buttons_lawful hrun⟩

/-- A jump from the first entry to the last but one leaves the buttons
`1, …, 10` on display. -/
theorem window_left_behind :
    ¬ ∀ (Item : Type) (C : ItemClass Item) (totalItem : ℕ) (evs : List Event) (s : State Item),
      C.Lawful → 1 ≤ totalItem →
      (∀ val : ℤ, .setIndex val ∈ evs → 0 ≤ val ∧ val < totalItem) →
      Runs.run (step C) (new C totalItem) evs = some s →
      Runs.EachStep (step C) (fun _ _ s' => Follows C s') (new C totalItem) evs := by
  intro h
  have hnew : Displays buttons (new buttons 20) 0 := displays_new buttons_lawful 20
  obtain ⟨s, hset, hm⟩ := setIndex_isSome buttons_lawful hnew 18
  have hrun : Runs.run (step buttons) (new buttons 20) [.setIndex 18] = some s :=
    Runs.run_singleton.mpr hset
  have hall := h Button buttons 20 [.setIndex 18] s buttons_lawful (by decide) (by simp) hrun
  have hfollows := hall [] (.setIndex 18) [] rfl _ s rfl hset
  have hshown := (hm.displays.shown_iff s.itemIndex).mp hfollows.current
  have hout : ¬ Middle 20 18 := by decide
  rw [hm.itemIndex] at hshown
  rw [show (new buttons 20).totalItem = 20 by decide +kernel, followed, if_neg hout] at hshown
  exact absurd hshown (by decide)

end Paginator

end Resources
