import Resources.AssetLoaderReport

/-!
# When the loader stalls

The player ends every load once (`settleStep`). Once nothing is in flight
any more, all urls should have been started and `ALL_COMPLETE_LOADING`
dispatched (`NoStall`).

If every load completes, a slot is free whenever a url waits, and the
queue is drained (`drained_of_no_ioError`); only an empty queue ends
without the final event, since no completion ever reports it. One
`IO_ERROR` is enough to lose that event for good: the failed load keeps
its slot and is never counted in `finishLoading` (`Lost`), and after four
of them nothing is started any more.
-/

namespace Resources

namespace AssetLoader

open State

/-! ## The states in question -/

def Event.isSettle : Event → Bool
  | .complete _ | .ioError _ => true
  | _ => false

/-- Urls added after the last load settled wait for `startQueue` to be
called again; every other `addToQueue` is followed by a settling load. -/
def Covered (evs : List Event) : Prop :=
  ∀ pre args post, evs = pre ++ .addToQueue args :: post →
    ∃ e ∈ post, e = .startQueue ∨ e.isSettle = true

/-- No started load is still unsettled, so that nothing can happen by itself
any more. -/
def Quiescent (s : State) : Prop := ∀ l ∈ s.loads, l.settled = true

def AllDispatched (s : State) : Prop := ∃ r ∈ s.dispatched, r.type = .ALL_COMPLETE_LOADING

/-- Every url has been started, and the final event dispatched. -/
def NoStall (s : State) : Prop := s.loadIndex = s.queue.length ∧ AllDispatched s

instance (s : State) : Decidable (Quiescent s) :=
  inferInstanceAs (Decidable (∀ l ∈ s.loads, l.settled = true))

instance (s : State) : Decidable (AllDispatched s) :=
  inferInstanceAs (Decidable (∃ r ∈ s.dispatched, r.type = .ALL_COMPLETE_LOADING))

instance (s : State) : Decidable (NoStall s) :=
  inferInstanceAs (Decidable (s.loadIndex = s.queue.length ∧ AllDispatched s))

theorem covered_of_no_add {evs : List Event} (h : ∀ args, Event.addToQueue args ∉ evs) :
    Covered evs := by
  intro pre args post heq
  exact absurd (by simp [heq]) (h args)

/-! ## Loads that complete -/

theorem not_failed_run {args : List Url} {evs : List Event} {s : State}
    (hrun : Runs.run step (new args) evs = some s) (hok : ∀ n, Event.ioError n ∉ evs) :
    ∀ l ∈ s.loads, l.failed = false := by
  refine (Runs.run_history
    (fun evs s => Inv s ∧ ((∀ n, Event.ioError n ∉ evs) → ∀ l ∈ s.loads, l.failed = false))
    ⟨inv_new args, fun _ l hl => by simp [new, addToQueue] at hl⟩
    (fun evs s e s' h hstep => ⟨inv_step h.1 hstep, fun hok => ?_⟩) hrun).2 hok
  have ih := h.2 fun n hn => hok n (List.mem_append_left _ hn)
  have hstart : ∀ t : State, (∀ l ∈ t.loads, l.failed = false) →
      ∀ l ∈ t.startQueue.loads, l.failed = false := fun t ht =>
    startQueue_keeps (fun t => ∀ l ∈ t.loads, l.failed = false)
      (fun t url ht _ _ l hl => by
        rcases List.mem_append.mp hl with hold | hnew
        · exact ht l hold
        · rw [List.mem_singleton.mp hnew]) ht
  rcases step_cases h.1 hstep with
    ⟨args, rfl, rfl⟩ | ⟨rfl, rfl⟩ | ⟨n, l, rfl, hl, hopen, rfl⟩ | ⟨n, l, rfl, hl, rfl⟩
  · exact ih
  · exact hstart s ih
  · rw [onComplete_eq]
    refine hstart _ ?_
    intro l' hl'
    rcases List.mem_or_eq_of_mem_set hl' with hold | rfl
    · exact ih l' hold
    · exact ih l (List.mem_of_getElem? hl)
  · exact absurd (List.mem_append_right _ (List.mem_singleton.mpr rfl)) (hok n)

/-- If all loads settled by completing, every slot is free. -/
theorem free_of_quiescent {s : State} (h : Inv s) (hq : Quiescent s)
    (hok : ∀ l ∈ s.loads, l.failed = false) : s.currentLoading = 0 := by
  have hall : s.loads.countP (·.completed) = s.loads.length :=
    List.countP_eq_length.mpr fun l hl => by
      have := hq l hl
      rwa [Load.settled, hok l hl, Bool.or_false] at this
  have := h.finished
  have := h.inFlight
  have := h.loads_length
  omega

/-- While all loads complete, a waiting url means that no slot is free:
`startQueue` and every completion fill the slots. -/
theorem filled_run {args : List Url} {evs : List Event} {s : State}
    (hrun : Runs.run step (new args) evs = some s) (hok : ∀ n, Event.ioError n ∉ evs)
    (hstart : Event.startQueue ∈ evs) (hcov : Covered evs) :
    (toPool s).Filled MAX_LOAD := by
  refine (Runs.run_history
    (fun evs s => Inv s ∧ ((∀ n, Event.ioError n ∉ evs) → Event.startQueue ∈ evs → Covered evs →
      (toPool s).Filled MAX_LOAD))
    ⟨inv_new args, fun _ h => by cases h⟩
    (fun evs s e s' h hstep => ⟨inv_step h.1 hstep, fun hok _ hcov => ?_⟩) hrun).2 hok hstart hcov
  rcases step_cases h.1 hstep with
    ⟨args, rfl, rfl⟩ | ⟨rfl, rfl⟩ | ⟨n, l, rfl, hl, hopen, rfl⟩ | ⟨n, l, rfl, hl, rfl⟩
  · -- an `addToQueue` at the very end is not covered
    obtain ⟨_, he, -⟩ := hcov evs args [] rfl
    cases he
  · rw [toPool_startQueue]
    exact SlotPool.fill_filled h.1.slots
  · rw [toPool_onComplete h.1 hl hopen]
    exact SlotPool.release_filled h.1.slots
  · exact absurd (List.mem_append_right _ (List.mem_singleton.mpr rfl)) (hok n)

/-- **The queue drains** when every load completes: once nothing is in flight,
all urls have been started and counted as finished. -/
theorem drained_of_no_ioError {args : List Url} {evs : List Event} {s : State}
    (hrun : Runs.run step (new args) evs = some s) (hok : ∀ n, Event.ioError n ∉ evs)
    (hstart : Event.startQueue ∈ evs) (hcov : Covered evs) (hq : Quiescent s) :
    s.loadIndex = s.queue.length ∧ s.finishLoading = s.queue.length := by
  have h : Inv s := inv_run hrun
  have hfree := free_of_quiescent h hq (not_failed_run hrun hok)
  have hle := h.index_le
  have hsum := h.inFlight
  rcases filled_run hrun hok hstart hcov with hnone | hfull
  · simp only [toPool] at hnone
    omega
  · simp only [toPool, hfree] at hfull
    cases hfull

/-! ## The final event -/

/-- One report for each finished load, and the last of a queue that is
finished is the final event. -/
structure Announced (s : State) : Prop where
  reports : s.dispatched.length = s.finishLoading
  final : 0 < s.finishLoading → s.finishLoading = s.queue.length → AllDispatched s

theorem announced_report {s : State} (h : s.dispatched.length + 1 = s.finishLoading)
    (target : Obj) : Announced (s.dispatchEvent (report target s)) where
  reports := List.length_append.trans h
  final := fun _ hall => by
    refine ⟨report target s, List.mem_append_right _ (List.mem_singleton.mpr rfl), ?_⟩
    exact if_pos hall

theorem announced_step {s s' : State} {e : Event} (hi : Inv s) (h : Announced s)
    (hstep : step s e = some s') : Announced s' := by
  rcases step_cases hi hstep with
    ⟨args, rfl, rfl⟩ | ⟨rfl, rfl⟩ | ⟨n, l, rfl, hl, hopen, rfl⟩ | ⟨n, l, rfl, hl, rfl⟩
  · refine ⟨h.reports, fun hpos hall => h.final hpos ?_⟩
    -- a finished queue that grew would not be finished
    have hsum := hi.inFlight
    have hle := hi.index_le
    simp only [addToQueue, List.length_append] at hall
    omega
  · refine ⟨?_, ?_⟩
    · rw [startQueue_dispatched, startQueue_finishLoading, h.reports]
    · rw [startQueue_finishLoading, startQueue_queue, AllDispatched, startQueue_dispatched]
      exact h.final
  · rw [onComplete_eq]
    refine announced_report ?_ _
    rw [startQueue_dispatched, startQueue_finishLoading]
    exact congrArg (· + 1) h.reports
  · exact ⟨h.reports, h.final⟩

theorem announced_run {args : List Url} {evs : List Event} {s : State}
    (hrun : Runs.run step (new args) evs = some s) : Announced s :=
  (Runs.run_invariant (fun s => Inv s ∧ Announced s)
    (fun _ _ _ h hstep => ⟨inv_step h.1 hstep, announced_step h.1 h.2 hstep⟩)
    ⟨inv_new args, rfl, fun hpos => absurd hpos (Nat.lt_irrefl 0)⟩ hrun).2

/-! ## A load that fails -/

/-- Some load failed, and the final event has not been dispatched. -/
def Lost (s : State) : Prop :=
  (∃ (n : Nat) (l : Load), s.loads[n]? = some l ∧ l.failed = true ∧ l.completed = false)
    ∧ ¬AllDispatched s

/-- Loads that are there stay as they are when others are started. -/
theorem startQueue_getElem? {s : State} {n : Nat} {l : Load} (hl : s.loads[n]? = some l) :
    s.startQueue.loads[n]? = some l :=
  startQueue_keeps (fun t => t.loads[n]? = some l)
    (fun t url ht _ _ => by
      rw [startLoad_loads, List.getElem?_append_left (List.getElem?_eq_some_iff.mp ht).1]
      exact ht) hl

theorem settleStep_open {s s' : State} {e : Event} {n : Nat} (he : e = .complete n ∨ e = .ioError n)
    (hstep : settleStep s e = some s') {l : Load} (hl : s.loads[n]? = some l) :
    l.settled = false := by
  cases hset : l.settled with
  | false => rfl
  | true => rcases he with rfl | rfl <;> simp [settleStep, hl, hset] at hstep

/-- What is lost stays lost, whichever loads complete after it. -/
theorem lost_step {s s' : State} {e : Event} (hi : Inv s) (h : Lost s)
    (hstep : settleStep s e = some s') : Lost s' := by
  have hi' : Inv s' := inv_step hi (settleStep_step hstep)
  obtain ⟨⟨n, l, hl, hfail, hopen⟩, hno⟩ := h
  have hset : l.settled = true := by rw [Load.settled, hfail, Bool.or_true]
  rcases step_cases hi (settleStep_step hstep) with
    ⟨args, rfl, rfl⟩ | ⟨rfl, rfl⟩ | ⟨m, k, rfl, hk, hkopen, rfl⟩ | ⟨m, k, rfl, hk, rfl⟩
  · exact ⟨⟨n, l, hl, hfail, hopen⟩, hno⟩
  · refine ⟨⟨n, l, startQueue_getElem? hl, hfail, hopen⟩, ?_⟩
    rwa [AllDispatched, startQueue_dispatched]
  · have hne : m ≠ n := by
      rintro rfl
      obtain rfl := Option.some.inj (hk.symm.trans hl)
      rw [settleStep_open (Or.inl rfl) hstep hk] at hset
      cases hset
    rw [onComplete_eq] at hi' ⊢
    have hl' : (countCompletion (markCompleted s m k)).startQueue.loads[n]? = some l := by
      refine startQueue_getElem? ?_
      rw [countCompletion_loads, markCompleted_loads, List.getElem?_set_ne hne, hl]
    refine ⟨⟨n, l, hl', hfail, hopen⟩, ?_⟩
    rintro ⟨r, hr, htype⟩
    rcases List.mem_append.mp hr with hold | hnew
    · rw [startQueue_dispatched] at hold
      exact hno ⟨r, hold, htype⟩
    · -- the new report is not the final one: the failed load is missing from the count
      obtain rfl := List.mem_singleton.mp hnew
      have hheld : 0 < (countCompletion (markCompleted s m k)).startQueue.currentLoading :=
        hi'.slot_held hl' hopen
      have hsum := hi'.inFlight
      have hle := hi'.index_le
      simp only [dispatchEvent] at hsum hle
      have hshort : ¬(countCompletion (markCompleted s m k)).startQueue.finishLoading
          = (countCompletion (markCompleted s m k)).startQueue.queue.length := by omega
      rw [report, if_neg hshort] at htype
      cases htype
  · refine ⟨⟨n, l, ?_, hfail, hopen⟩, hno⟩
    have hne : m ≠ n := by
      rintro rfl
      obtain rfl := Option.some.inj (hk.symm.trans hl)
      rw [settleStep_open (Or.inr rfl) hstep hk] at hset
      cases hset
    rw [markFailed_loads, List.getElem?_set_ne hne, hl]

/-- An `IO_ERROR` before the final event loses it: the failed load is never
counted as finished. -/
theorem lost_of_ioError {s s' : State} {n : Nat} (hi : Inv s) (hno : ¬AllDispatched s)
    (hstep : settleStep s (.ioError n) = some s') : Lost s' := by
  rcases step_cases hi (settleStep_step hstep) with
    ⟨_, he, -⟩ | ⟨he, -⟩ | ⟨_, _, he, -⟩ | ⟨m, l, he, hl, rfl⟩
  · cases he
  · cases he
  · cases he
  · obtain rfl := Event.ioError.inj he
    have hopen := settleStep_open (Or.inr rfl) hstep hl
    rw [Load.settled, Bool.or_eq_false_iff] at hopen
    refine ⟨⟨n, { l with failed := true }, ?_, rfl, hopen.1⟩, hno⟩
    rw [markFailed_loads, List.getElem?_set_self (List.getElem?_eq_some_iff.mp hl).1]

/-! ## Exactly when the loader stalls -/

/-- At a quiescent state, with `startQueue` called and no url added since
the last load settled: if every load completed, the loader did not stall
exactly when the queue is not empty; and if a load failed before the
final event, it did. -/
theorem noStall_iff {args : List Url} {evs : List Event} {s : State}
    (hrun : Runs.run settleStep (new args) evs = some s) (hstart : Event.startQueue ∈ evs)
    (hcov : Covered evs) (hq : Quiescent s) :
    ((∀ n, Event.ioError n ∉ evs) → (NoStall s ↔ s.queue ≠ []))
      ∧ ∀ pre n post t, evs = pre ++ .ioError n :: post →
          Runs.run settleStep (new args) pre = some t → ¬AllDispatched t → ¬NoStall s := by
  have hrun' : Runs.run step (new args) evs = some s :=
    Runs.run_mono (fun _ _ _ => settleStep_step) hrun
  have hi : Inv s := inv_run hrun'
  have ha : Announced s := announced_run hrun'
  refine ⟨?_, ?_⟩
  · intro hok
    obtain ⟨hindex, hfin⟩ := drained_of_no_ioError hrun' hok hstart hcov hq
    constructor
    · rintro ⟨-, r, hr, -⟩ hempty
      have hpos : 0 < s.dispatched.length := List.length_pos_of_mem hr
      rw [ha.reports, hfin, hempty] at hpos
      cases hpos
    · intro hne
      refine ⟨hindex, ha.final ?_ hfin⟩
      rw [hfin]
      exact List.length_pos_iff.mpr hne
  · rintro pre n post t rfl ht hno hgood
    obtain ⟨t', ht', hrest⟩ := Runs.run_append.mp hrun
    obtain rfl := Option.some.inj (ht.symm.trans ht')
    obtain ⟨u, hu, hrest⟩ := Runs.run_cons.mp hrest
    have hit : Inv t := inv_run (Runs.run_mono (fun _ _ _ => settleStep_step) ht)
    have hiu : Inv u := inv_step hit (settleStep_step hu)
    have hlost : Inv s ∧ Lost s :=
      Runs.run_invariant (fun s => Inv s ∧ Lost s)
        (fun _ _ _ h hstep => ⟨inv_step h.1 (settleStep_step hstep), lost_step h.1 h.2 hstep⟩)
        ⟨hiu, lost_of_ioError hit hno hu⟩ hrest
    exact hlost.2.2 hgood.2

/-- Two urls that both load, and a queue whose only url fails. -/
theorem noStall_iff_two : (∃ s : State,
      Runs.run settleStep (new ["a", "b"]) [.startQueue, .complete 1, .complete 0] = some s
        ∧ (NoStall s ↔ s.queue ≠ []))
    ∧ ∃ s : State, Runs.run settleStep (new ["a"]) [.startQueue, .ioError 0] = some s
        ∧ ¬NoStall s := by
  refine ⟨⟨_, rfl, ?_⟩, _, rfl, ?_⟩
  · exact (@noStall_iff ["a", "b"] [.startQueue, .complete 1, .complete 0] _ rfl (by simp)
      (covered_of_no_add (by simp)) (by decide)).1 (by simp)
  · exact (@noStall_iff ["a"] [.startQueue, .ioError 0] _ rfl (by simp)
      (covered_of_no_add (by simp)) (by decide)).2 [.startQueue] 0 [] _ rfl rfl (by decide)

/-- Five urls of which the first four fail: nothing is in flight, the fifth
was never started, and no final event comes. -/
theorem stalls_on_ioErrors :
    ¬∀ (args : List Url) (evs : List Event) (s : State),
      Runs.run settleStep (new args) evs = some s → Event.startQueue ∈ evs → Covered evs →
        Quiescent s → NoStall s := by
  intro h
  have hbad := h ["a", "b", "c", "d", "e"]
    [.startQueue, .ioError 0, .ioError 1, .ioError 2, .ioError 3] _ rfl (by simp)
    (covered_of_no_add (by simp)) (by decide)
  exact absurd hbad (by decide)

end AssetLoader

end Resources
