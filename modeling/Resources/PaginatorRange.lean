import Resources.PaginatorWindow

/-!
# The index stays within the list

Whether a pick can lead out of the list is left to the buttons: which
numbers exist, and whether `<` and `>` are greyed out. The constructor
builds the numbers up to ten for every list, and `checkIndex` greys out
`<` only where it has not greyed out `>`. `valid_iff` says what this
amounts to: a run of picks is fine exactly when the list has two entries
or more and no number beyond its end is picked, and all runs are exactly
when the list is as long as the window.
-/

namespace Resources

namespace Paginator

open State

variable {Item : Type*} {C : ItemClass Item}

/-- The index is in the list, and the end buttons show where. -/
structure Valid (C : ItemClass Item) (s : State Item) : Prop where
  range : 0 ≤ s.itemIndex ∧ s.itemIndex < s.totalItem
  prev : C.grey s.prev = true ↔ s.itemIndex = 0
  next : C.grey s.next = true ↔ s.itemIndex = (s.totalItem : ℤ) - 1

/-- The entry exists, in a list of two entries or more: it is what a pick may
ask for. -/
def Allowed (totalItem : ℕ) (info : Info) : Prop :=
  2 ≤ totalItem ∧ ∀ n, info = .number n → n ≤ totalItem

/-! ## Which buttons can be picked -/

/-- A pick comes from one of the two end buttons or from one of the ten. -/
theorem pick_button {s s' : State Item} {info : Info} {first : ℕ} (h : Displays C s first)
    (hpick : pick C s info = some s') :
    (C.info s.prev = info ∧ C.grey s.prev = false)
      ∨ (C.info s.next = info ∧ C.grey s.next = false)
      ∨ ∃ child ∈ s.itemArray, C.info child.item = info := by
  rw [pick, h.holder] at hpick
  split at hpick
  · next hany =>
      obtain ⟨item, hitem, hok⟩ := List.any_eq_true.mp hany
      rw [Bool.and_eq_true, decide_eq_true_eq, Bool.not_eq_true'] at hok
      rcases List.mem_cons.mp hitem with rfl | hitem
      · exact Or.inl hok
      rcases List.mem_cons.mp hitem with rfl | hitem
      · exact Or.inr (Or.inl hok)
      · obtain ⟨child, hchild, rfl⟩ := List.mem_map.mp hitem
        exact Or.inr (Or.inr ⟨child, hchild, hok.1⟩)
  · cases hpick

theorem pick_number {s s' : State Item} {n first : ℕ} (h : Displays C s first)
    (hpick : pick C s (.number n) = some s') : first < n ∧ n ≤ first + 10 := by
  rcases pick_button h hpick with ⟨hinfo, -⟩ | ⟨hinfo, -⟩ | hshown
  · rw [h.prev] at hinfo
    cases hinfo
  · rw [h.next] at hinfo
    cases hinfo
  · exact h.mem_iff.mp hshown

theorem pick_string {s s' : State Item} {label : String} {first : ℕ} (h : Displays C s first)
    (hpick : pick C s (.string label) = some s') :
    (label = "<" ∧ C.grey s.prev = false) ∨ (label = ">" ∧ C.grey s.next = false) := by
  rcases pick_button h hpick with ⟨hinfo, hgrey⟩ | ⟨hinfo, hgrey⟩ | ⟨child, hchild, hinfo⟩
  · rw [h.prev] at hinfo
    exact Or.inl ⟨(Info.string.inj hinfo).symm, hgrey⟩
  · rw [h.next] at hinfo
    exact Or.inr ⟨(Info.string.inj hinfo).symm, hgrey⟩
  · have hmem : C.info child.item ∈ s.infos C := List.mem_map_of_mem hchild
    rw [h.infos, hinfo, List.mem_map] at hmem
    obtain ⟨_, _, hne⟩ := hmem
    cases hne

/-- A number on display can be picked, since no numbered button is ever greyed
out. -/
theorem pick_shown (laws : C.Lawful) {s : State Item} {first n : ℕ} (h : Displays C s first)
    (hn : first < n ∧ n ≤ first + 10) : ∃ s', pick C s (.number n) = some s' := by
  obtain ⟨child, hchild, hinfo⟩ := h.mem_iff.mpr hn
  have hgrey := h.grey child hchild
  obtain ⟨s', hs', -⟩ := itemPicked_isSome laws h (.number n)
  refine ⟨s', ?_⟩
  rw [pick, if_pos, hs']
  rw [List.any_eq_true]
  refine ⟨child.item, ?_, ?_⟩
  · rw [h.holder]
    exact List.mem_cons_of_mem _ (List.mem_cons_of_mem _ (List.mem_map_of_mem hchild))
  · rw [hinfo, hgrey]
    simp

/-- A pick leads to its index, and to the window that goes with it. -/
theorem pick_moved (laws : C.Lawful) {s s' : State Item} {info : Info} {first : ℕ}
    (h : Displays C s first) (hpick : pick C s info = some s') :
    Moved C s.totalItem (target s.itemIndex (.itemPick info)) first s' :=
  step_moved (e := .itemPick info) laws h hpick

/-! ## Picks from a valid state -/

/-- A valid state, or the initial one. What it says of the index is what a
pick of `<` or `>` relies on: neither of them can be picked where it would
lead out of the list. -/
structure Ready (C : ItemClass Item) (total : ℕ) (s : State Item) : Prop where
  displays : ∃ first, Displays C s first
  totalItem : s.totalItem = total
  low : 0 ≤ s.itemIndex
  high : 2 ≤ total → s.itemIndex < total
  back : C.grey s.prev = false → 0 < s.itemIndex
  on : 2 ≤ total → C.grey s.next = false → s.itemIndex < (total : ℤ) - 1

theorem ready_new (laws : C.Lawful) (totalItem : ℕ) : Ready C totalItem (new C totalItem) := by
  obtain ⟨items, xPos, created, heq, -⟩ := new_eq laws totalItem
  refine ⟨⟨0, displays_new laws totalItem⟩, ?_, ?_, ?_, ?_, ?_⟩
  all_goals rw [heq]
  · intro htwo
    show (0 : ℤ) < totalItem
    omega
  · intro hgrey
    rw [laws.grey_greyOut] at hgrey
    cases hgrey
  · intro htwo _
    show (0 : ℤ) < (totalItem : ℤ) - 1
    omega

/-- A pick that is allowed keeps this. -/
theorem ready_step (laws : C.Lawful) {total : ℕ} {s s' : State Item} {info : Info}
    (h : Ready C total s) (hpick : pick C s info = some s') (hvalid : Valid C s') :
    Ready C total s' := by
  obtain ⟨first, hdisp⟩ := h.displays
  have hm := pick_moved laws hdisp hpick
  have htotal : s'.totalItem = total := hm.totalItem.trans h.totalItem
  obtain ⟨hlow, hhigh⟩ := hvalid.range
  refine ⟨⟨_, hm.displays⟩, htotal, hlow, fun _ => htotal ▸ hhigh, fun hgrey => ?_,
    fun _ hgrey => ?_⟩
  · have hne : s'.itemIndex ≠ 0 := fun hzero => by
      rw [hvalid.prev.mpr hzero] at hgrey
      cases hgrey
    omega
  · have hne : s'.itemIndex ≠ (s'.totalItem : ℤ) - 1 := fun hlast => by
      rw [hvalid.next.mpr hlast] at hgrey
      cases hgrey
    omega

/-- Where a step leads, a list of two entries or more tells its two ends
apart; a list of one entry does not. -/
theorem Moved.valid_iff_range {total first : ℕ} {i : ℤ} {s : State Item}
    (hm : Moved C total i first s) : Valid C s ↔ 2 ≤ total ∧ 0 ≤ i ∧ i < total := by
  constructor
  · rintro ⟨⟨hlow, hhigh⟩, hprev, -⟩
    rw [hm.itemIndex] at hlow hhigh hprev
    rw [hm.totalItem] at hhigh
    rw [hm.prev_grey] at hprev
    refine ⟨?_, hlow, hhigh⟩
    -- with a single entry, `<` would be greyed out at both ends
    by_contra hlt
    have hzero : i = 0 := by omega
    have hends := hprev.mpr hzero
    omega
  · rintro ⟨htwo, hlow, hhigh⟩
    refine ⟨?_, ?_, ?_⟩
    · rw [hm.itemIndex, hm.totalItem]
      exact ⟨hlow, hhigh⟩
    · rw [hm.prev_grey, hm.itemIndex]
      omega
    · rw [hm.next_grey, hm.itemIndex, hm.totalItem]
      omega

/-- **Step lemma.** A pick leaves the paginator valid exactly if it is allowed.
-/
theorem valid_step (laws : C.Lawful) {total : ℕ} {s s' : State Item} {info : Info}
    (h : Ready C total s) (hpick : pick C s info = some s') :
    Valid C s' ↔ Allowed total info := by
  obtain ⟨first, hdisp⟩ := h.displays
  have hm := pick_moved laws hdisp hpick
  rw [h.totalItem] at hm
  rw [hm.valid_iff_range, Allowed]
  refine and_congr_right ?_
  intro htwo
  have hlow := h.low
  cases info with
  | number n =>
      obtain ⟨hpos, -⟩ := pick_number hdisp hpick
      simp only [target, Info.number.injEq, forall_eq']
      omega
  | string label =>
      have hany : ∀ n, Info.string label = .number n → n ≤ total := by
        intro n h
        cases h
      refine iff_of_true ?_ hany
      rcases pick_string hdisp hpick with ⟨rfl, hgrey⟩ | ⟨rfl, hgrey⟩
      · -- `<` is not greyed out, so the index is not the first
        have hback := h.back hgrey
        have hlast := h.high htwo
        rw [target, if_pos rfl]
        omega
      · have hlast := h.on htwo hgrey
        rw [target, if_neg (by decide)]
        omega

/-- **All picks of a run leave the paginator valid** exactly when none of
them is of a number beyond the list's end, in a list of two entries or
more; and the picks of all runs do exactly when the list fills the window. -/
theorem valid_iff (laws : C.Lawful) (totalItem : ℕ) :
    (∀ infos s, Runs.run (pick C) (new C totalItem) infos = some s →
      (Runs.EachStep (pick C) (fun _ _ s' => Valid C s') (new C totalItem) infos ↔
        ∀ info ∈ infos, Allowed totalItem info))
    ∧ ((∀ infos s, Runs.run (pick C) (new C totalItem) infos = some s →
        Runs.EachStep (pick C) (fun _ _ s' => Valid C s') (new C totalItem) infos) ↔
      limit ≤ totalItem) := by
  have hruns : ∀ infos s, Runs.run (pick C) (new C totalItem) infos = some s →
      (Runs.EachStep (pick C) (fun _ _ s' => Valid C s') (new C totalItem) infos ↔
        ∀ info ∈ infos, Allowed totalItem info) := by
    intro infos s hrun
    rw [← Runs.eachStep_event hrun]
    exact Runs.eachStep_iff (Ready C totalItem) (fun _ _ _ => valid_step laws)
      (fun _ _ _ => ready_step laws) (ready_new laws totalItem) hrun
  refine ⟨hruns, ?_, ?_⟩
  · intro hall
    by_contra hshort
    have hnew : Displays C (new C totalItem) 0 := displays_new laws totalItem
    obtain ⟨s, hs⟩ :=
      pick_shown laws (n := totalItem + 1) hnew (by unfold limit at hshort; omega)
    have hrun := Runs.run_singleton.mpr hs
    have hallowed := (hruns _ s hrun).mp (hall _ s hrun) _ (List.mem_singleton.mpr rfl)
    exact absurd (hallowed.2 _ rfl) (by omega)
  · intro hlong infos s hrun
    rw [hruns infos s hrun, ← Runs.eachStep_event hrun]
    refine Runs.eachStep_of_invariant
      (fun s => s.totalItem = totalItem ∧ ∃ first, Displays C s first)
      ⟨?_, 0, displays_new laws totalItem⟩ ?_ ?_ infos
    · exact (ready_new laws totalItem).totalItem
    · rintro t info u ⟨htotal, first, h⟩ hpick
      have hm := pick_moved laws h hpick
      exact ⟨hm.totalItem.trans htotal, _, hm.displays⟩
    · rintro t info u ⟨htotal, first, h⟩ hpick
      refine ⟨by unfold limit at hlong; omega, ?_⟩
      rintro n rfl
      obtain ⟨-, hle⟩ := pick_number h hpick
      have hmoved := h.moved
      unfold limit at hlong
      omega

/-- In a list of three entries a pick of `3` and then of `<` leaves the
paginator valid, and a further pick of `7` does not; and there are such
picks, because the list is shorter than the window. -/
theorem valid_iff_three :
    (∃ s : State Button,
      Runs.run (pick buttons) (new buttons 3) [.number 3, .string "<", .number 7] = some s
        ∧ (Runs.EachStep (pick buttons) (fun _ _ s' => Valid buttons s') (new buttons 3)
              [.number 3, .string "<", .number 7] ↔
            ∀ info ∈ [Info.number 3, .string "<", .number 7], Allowed 3 info))
      ∧ ((∀ infos s, Runs.run (pick buttons) (new buttons 3) infos = some s →
          Runs.EachStep (pick buttons) (fun _ _ s' => Valid buttons s') (new buttons 3) infos) ↔
        limit ≤ 3) := by
  have hsome : (Runs.run (pick buttons) (new buttons 3)
      [.number 3, .string "<", .number 7]).isSome = true := by decide +kernel
  obtain ⟨s, hrun⟩ := Option.isSome_iff_exists.mp hsome
  obtain ⟨hruns, hlist⟩ := valid_iff buttons_lawful 3
  exact ⟨⟨s, hrun, hruns _ s hrun⟩, hlist⟩

/-- The buttons `4, …, 10` of a list of three entries lead out of it. -/
theorem pick_beyond_end :
    ¬ ∀ (Item : Type) (C : ItemClass Item) (totalItem : ℕ) (infos : List Info) (s : State Item),
      C.Lawful → 1 ≤ totalItem →
      Runs.run (pick C) (new C totalItem) infos = some s →
      Runs.EachStep (pick C) (fun _ _ s' => Valid C s') (new C totalItem) infos := by
  intro h
  have hnew : Displays buttons (new buttons 3) 0 := displays_new buttons_lawful 3
  obtain ⟨s, hpick⟩ := pick_shown buttons_lawful (n := 7) hnew (by decide)
  have hall := h Button buttons 3 [.number 7] s buttons_lawful (by decide)
    (Runs.run_singleton.mpr hpick)
  have hvalid := hall [] (.number 7) [] rfl _ s rfl hpick
  have hready := ready_new buttons_lawful 3
  obtain ⟨-, hallowed⟩ := (valid_step buttons_lawful hready hpick).mp hvalid
  exact absurd (hallowed 7 rfl) (by decide)

end Paginator

end Resources
