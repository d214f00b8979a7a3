import Resources.AssetLoader
import Resources.SlotPool

/-!
# What holds of the loader in every reachable state

`startQueue` satisfies the equation of the `while` loop it stands for
(`startQueue_eq`), and so do its effects on each field.

`Inv` ties the two counters and `loadIndex` to the loads the player was
asked for. It is proved once per operation (`inv_startQueue`,
`inv_onComplete`, ...) and for every run by `inv_run`.

`toPool` forgets everything but the numbers: the urls that wait, the
slots taken, the slots given back. Under it the loader refines
`SlotPool` (`step_refines`): `startQueue` is `fill` and a completion is
`release`, but an `IO_ERROR` is `idle`. Its handler is empty, so the slot
of a failed load is never given back.
-/

namespace Resources

namespace AssetLoader

open State

/-! ## What `startQueue` changes -/

section startLoad
variable (url : Url) (s : State)

@[simp] theorem startLoad_queue : (s.startLoad url).queue = s.queue := rfl
@[simp] theorem startLoad_loadIndex : (s.startLoad url).loadIndex = s.loadIndex + 1 := rfl
@[simp] theorem startLoad_currentLoading :
    (s.startLoad url).currentLoading = s.currentLoading + 1 := rfl
@[simp] theorem startLoad_finishLoading :
    (s.startLoad url).finishLoading = s.finishLoading := rfl
@[simp] theorem startLoad_loads : (s.startLoad url).loads = s.loads ++ [{ request := url }] := rfl

theorem startLoad_listeners (key : Obj × LoaderEvent) :
    (s.startLoad url).listeners key
      = (s.startListeners (.contentLoaderInfo s.loads.length)).listeners key := rfl

theorem startLoad_dictionary (o : Obj) :
    (s.startLoad url).dictionary o
      = Function.update s.dictionary (.loader s.loads.length) (some url) o := rfl

end startLoad

/-- **Loop rule.** What every round keeps, the loop keeps. A round starts
the url at `loadIndex` while fewer than `MAX_LOAD` slots are taken. -/
theorem startLoop_keeps (P : State → Prop)
    (hround : ∀ s url, P s → s.queue[s.loadIndex]? = some url →
      s.currentLoading < MAX_LOAD → P (s.startLoad url)) :
    ∀ (fuel : Nat) {s : State}, P s → P (startLoop fuel s)
  | 0, _, h => h
  | fuel + 1, s, h => by
      rw [startLoop]
      split
      · next url hurl =>
          split
          · next hslot => exact startLoop_keeps P hround fuel (hround s url h hurl hslot)
          · exact h
      · exact h

theorem startQueue_keeps (P : State → Prop)
    (hround : ∀ s url, P s → s.queue[s.loadIndex]? = some url →
      s.currentLoading < MAX_LOAD → P (s.startLoad url))
    {s : State} (h : P s) : P s.startQueue :=
  startLoop_keeps P hround _ h

/-- `startQueue` touches neither the queue, nor the count of finished
loads, nor what was dispatched. -/
theorem startQueue_frame (s : State) :
    s.startQueue.queue = s.queue ∧ s.startQueue.finishLoading = s.finishLoading
      ∧ s.startQueue.dispatched = s.dispatched :=
  startQueue_keeps (fun t => t.queue = s.queue ∧ t.finishLoading = s.finishLoading
    ∧ t.dispatched = s.dispatched) (fun _ _ h _ _ => h) ⟨rfl, rfl, rfl⟩

@[simp] theorem startQueue_queue (s : State) : s.startQueue.queue = s.queue :=
  (startQueue_frame s).1

@[simp] theorem startQueue_finishLoading (s : State) :
    s.startQueue.finishLoading = s.finishLoading :=
  (startQueue_frame s).2.1

@[simp] theorem startQueue_dispatched (s : State) : s.startQueue.dispatched = s.dispatched :=
  (startQueue_frame s).2.2

/-- The fuel of `startQueue` is enough: the function satisfies the
equation of the source's `while` loop. -/
theorem startQueue_eq (s : State) :
    s.startQueue =
      match s.queue[s.loadIndex]? with
      | some url => if s.currentLoading < MAX_LOAD then (s.startLoad url).startQueue else s
      | none => s := by
  unfold startQueue
  cases hurl : s.queue[s.loadIndex]? with
  | none =>
      have hle : s.queue.length ≤ s.loadIndex := List.getElem?_eq_none_iff.mp hurl
      rw [Nat.sub_eq_zero_of_le hle, startLoop]
  | some url =>
      have hlt : s.loadIndex < s.queue.length := (List.getElem?_eq_some_iff.mp hurl).1
      obtain ⟨fuel, hfuel⟩ : ∃ fuel, s.queue.length - s.loadIndex = fuel + 1 :=
        ⟨s.queue.length - s.loadIndex - 1, by omega⟩
      have hfuel' : s.queue.length - (s.loadIndex + 1) = fuel := by omega
      rw [hfuel, startLoop, hurl]
      simp only [startLoad_queue, startLoad_loadIndex, hfuel']

/-! ## The invariant -/

/-- The loads requested are the first `loadIndex` urls of the queue, in
order; each of them is counted in one of the two counters, a completed
one in `finishLoading`; and its two handlers are registered. -/
structure Inv (s : State) : Prop where
  requested : s.loads.map (·.request) = s.queue.take s.loadIndex
  index_le : s.loadIndex ≤ s.queue.length
  finished : s.finishLoading = s.loads.countP (·.completed)
  inFlight : s.currentLoading + s.finishLoading = s.loadIndex
  slots : s.currentLoading ≤ MAX_LOAD
  listening : ∀ n < s.loads.length,
    s.listeners (.contentLoaderInfo n, .COMPLETE) = some .onComplete
      ∧ s.listeners (.contentLoaderInfo n, .IO_ERROR) = some .onIOError

theorem Inv.loads_length {s : State} (h : Inv s) : s.loads.length = s.loadIndex := by
  have hlen := congrArg List.length h.requested
  rwa [List.length_map, List.length_take_of_le h.index_le] at hlen

/-- A started load that has not completed holds a slot. -/
theorem Inv.slot_held {s : State} (h : Inv s) {n : Nat} {l : Load} (hl : s.loads[n]? = some l)
    (hopen : l.completed = false) : 0 < s.currentLoading := by
  have hlt : s.loads.countP (·.completed) < s.loads.length := by
    refine Nat.lt_of_le_of_ne List.countP_le_length ?_
    intro heq
    have := List.countP_eq_length.mp heq l (List.mem_of_getElem? hl)
    rw [hopen] at this
    cases this
  have := h.loads_length
  have := h.finished
  have := h.inFlight
  omega

theorem inv_new (args : List Url) : Inv (new args) where
  requested := by simp [new, addToQueue]
  index_le := Nat.zero_le _
  finished := rfl
  inFlight := rfl
  slots := Nat.zero_le _
  listening := fun n hn => absurd hn (Nat.not_lt_zero n)

theorem inv_addToQueue {s : State} (h : Inv s) (args : List Url) : Inv (s.addToQueue args) where
  requested := by
    rw [show (s.addToQueue args).loads = s.loads from rfl, h.requested]
    exact (List.take_append_of_le_length h.index_le).symm
  index_le := by
    simp only [addToQueue, List.length_append]
    exact Nat.le_trans h.index_le (Nat.le_add_right _ _)
  finished := h.finished
  inFlight := h.inFlight
  slots := h.slots
  listening := h.listening

theorem startListeners_fresh {s : State} {o o' : Obj} (hne : o' ≠ o) (e : LoaderEvent) :
    (s.startListeners o).listeners (o', e) = s.listeners (o', e) := by
  simp [startListeners, hne]

theorem inv_startLoad {s : State} {url : Url} (h : Inv s)
    (hurl : s.queue[s.loadIndex]? = some url) (hslot : s.currentLoading < MAX_LOAD) :
    Inv (s.startLoad url) where
  requested := by
    rw [startLoad_loads, List.map_append, h.requested, startLoad_queue, startLoad_loadIndex,
      List.take_add_one, hurl]
    rfl
  index_le := (List.getElem?_eq_some_iff.mp hurl).1
  finished := by
    rw [startLoad_loads, List.countP_append, startLoad_finishLoading, h.finished]
    rfl
  inFlight := by
    simp only [startLoad_currentLoading, startLoad_finishLoading, startLoad_loadIndex]
    have := h.inFlight
    omega
  slots := hslot
  listening := fun n hn => by
    rw [startLoad_loads, List.length_append, List.length_singleton] at hn
    simp only [startLoad_listeners]
    rcases Nat.lt_or_eq_of_le (Nat.le_of_lt_succ hn) with hlt | rfl
    · -- an older loader: its handlers are those it was given when it started
      have hne : Obj.contentLoaderInfo n ≠ .contentLoaderInfo s.loads.length :=
        fun heq => absurd (Obj.contentLoaderInfo.inj heq) (Nat.ne_of_lt hlt)
      rw [startListeners_fresh hne, startListeners_fresh hne]
      exact h.listening n hlt
    · exact ⟨by simp [startListeners], by simp [startListeners]⟩

theorem inv_startQueue {s : State} (h : Inv s) : Inv s.startQueue :=
  startQueue_keeps Inv (fun _ _ => inv_startLoad) h

/-- Marking how a load went keeps the requests. -/
theorem requests_set {loads : List Load} {n : Nat} {l : Load} (l' : Load)
    (hl : loads[n]? = some l) (hreq : l'.request = l.request) :
    (loads.set n l').map (·.request) = loads.map (·.request) := by
  obtain ⟨hn, rfl⟩ := List.getElem?_eq_some_iff.mp hl
  have hn' : n < (loads.map (·.request)).length := by rwa [List.length_map]
  calc (loads.set n l').map (·.request)
      = (loads.map (·.request)).set n (loads.map (·.request))[n] := by
        rw [List.map_set, hreq, List.getElem_map]
    _ = loads.map (·.request) := List.set_getElem_self hn'

theorem uintDecr_of_pos {n : Nat} (hpos : 0 < n) : uintDecr n = n - 1 := by
  cases n with
  | zero => cases hpos
  | succ n => rfl

/-- The state in which the player delivers `COMPLETE`: the load is marked,
and nothing else has happened yet. -/
def markCompleted (s : State) (n : Nat) (l : Load) : State :=
  { s with loads := s.loads.set n { l with completed := true } }

/-- The state in which the player delivers `IO_ERROR`. -/
def markFailed (s : State) (n : Nat) (l : Load) : State :=
  { s with loads := s.loads.set n { l with failed := true } }

/-- `onComplete`'s first two statements. -/
def countCompletion (s : State) : State :=
  { s with
    currentLoading := uintDecr s.currentLoading
    finishLoading := s.finishLoading + 1 }

section marks
variable (s : State) (n : Nat) (l : Load)

@[simp] theorem markCompleted_queue : (markCompleted s n l).queue = s.queue := rfl
@[simp] theorem markCompleted_loadIndex : (markCompleted s n l).loadIndex = s.loadIndex := rfl
@[simp] theorem markCompleted_currentLoading :
    (markCompleted s n l).currentLoading = s.currentLoading := rfl
@[simp] theorem markCompleted_finishLoading :
    (markCompleted s n l).finishLoading = s.finishLoading := rfl
@[simp] theorem markCompleted_loads :
    (markCompleted s n l).loads = s.loads.set n { l with completed := true } := rfl
@[simp] theorem markCompleted_dispatched : (markCompleted s n l).dispatched = s.dispatched := rfl

@[simp] theorem markFailed_queue : (markFailed s n l).queue = s.queue := rfl
@[simp] theorem markFailed_loadIndex : (markFailed s n l).loadIndex = s.loadIndex := rfl
@[simp] theorem markFailed_finishLoading :
    (markFailed s n l).finishLoading = s.finishLoading := rfl
@[simp] theorem markFailed_loads :
    (markFailed s n l).loads = s.loads.set n { l with failed := true } := rfl

@[simp] theorem countCompletion_queue : (countCompletion s).queue = s.queue := rfl
@[simp] theorem countCompletion_loadIndex : (countCompletion s).loadIndex = s.loadIndex := rfl
@[simp] theorem countCompletion_currentLoading :
    (countCompletion s).currentLoading = uintDecr s.currentLoading := rfl
@[simp] theorem countCompletion_finishLoading :
    (countCompletion s).finishLoading = s.finishLoading + 1 := rfl
@[simp] theorem countCompletion_loads : (countCompletion s).loads = s.loads := rfl
@[simp] theorem countCompletion_dispatched :
    (countCompletion s).dispatched = s.dispatched := rfl

end marks

/-- The event `onComplete` dispatches, in the state `startQueue` left. -/
def report (target : Obj) (s : State) : AssetLoaderEvent :=
  { type := if s.finishLoading = s.queue.length then .ALL_COMPLETE_LOADING else .COMPLETE_LOADING
    parameters := (s.dictionary target, toString s.finishLoading ++ "/" ++ toString s.queue.length) }

/-- `onComplete` in three parts: count, start the next loads, report. -/
theorem onComplete_eq (s : State) (target : Obj) :
    s.onComplete target =
      (countCompletion s).startQueue.dispatchEvent
        (report target (countCompletion s).startQueue) := by
  by_cases hall : (countCompletion s).startQueue.finishLoading
      = (countCompletion s).startQueue.queue.length
  · rw [report, if_pos hall]
    simp only [startQueue_finishLoading, startQueue_queue]
    exact if_pos hall
  · rw [report, if_neg hall]
    simp only [startQueue_finishLoading, startQueue_queue]
    exact if_neg hall

theorem inv_dispatchEvent {s : State} (h : Inv s) (e : AssetLoaderEvent) :
    Inv (s.dispatchEvent e) :=
  ⟨h.requested, h.index_le, h.finished, h.inFlight, h.slots, h.listening⟩

/-- A completed load moves from one counter to the other. -/
theorem inv_countCompletion {s : State} (h : Inv s) {n : Nat} {l : Load}
    (hl : s.loads[n]? = some l) (hopen : l.completed = false) :
    Inv (countCompletion (markCompleted s n l)) where
  requested := by
    simp only [countCompletion_loads, markCompleted_loads, countCompletion_queue,
      markCompleted_queue, countCompletion_loadIndex, markCompleted_loadIndex]
    exact (requests_set { l with completed := true } hl rfl).trans h.requested
  index_le := h.index_le
  finished := by
    obtain ⟨hn, rfl⟩ := List.getElem?_eq_some_iff.mp hl
    simp only [countCompletion_loads, markCompleted_loads, countCompletion_finishLoading,
      markCompleted_finishLoading]
    simp [List.countP_set hn, hopen, h.finished]
  inFlight := by
    have hpos := h.slot_held hl hopen
    have hsum := h.inFlight
    simp only [countCompletion_currentLoading, markCompleted_currentLoading,
      countCompletion_finishLoading, markCompleted_finishLoading, countCompletion_loadIndex,
      markCompleted_loadIndex, uintDecr_of_pos hpos]
    omega
  slots := by
    simp only [countCompletion_currentLoading, markCompleted_currentLoading,
      uintDecr_of_pos (h.slot_held hl hopen)]
    exact Nat.le_trans (Nat.sub_le _ _) h.slots
  listening := fun k hk => h.listening k (by simpa using hk)

/-- A completion gives a slot back, and the loop fills the slots again. -/
theorem inv_onComplete {s : State} (h : Inv s) {n : Nat} {l : Load} (hl : s.loads[n]? = some l)
    (hopen : l.completed = false) (target : Obj) :
    Inv ((markCompleted s n l).onComplete target) := by
  rw [onComplete_eq]
  exact inv_dispatchEvent (inv_startQueue (inv_countCompletion h hl hopen)) _

/-- A failed load keeps its slot, since nothing handles its event. -/
theorem inv_markFailed {s : State} (h : Inv s) {n : Nat} {l : Load} (hl : s.loads[n]? = some l) :
    Inv (markFailed s n l) where
  requested := by
    simp only [markFailed_loads, markFailed_queue, markFailed_loadIndex]
    exact (requests_set { l with failed := true } hl rfl).trans h.requested
  index_le := h.index_le
  finished := by
    obtain ⟨hn, rfl⟩ := List.getElem?_eq_some_iff.mp hl
    simp only [markFailed_finishLoading, markFailed_loads, List.countP_set hn, h.finished]
    -- the mark leaves `completed` alone, so the load counts as before
    split
    · next hc =>
        have hpos : 0 < s.loads.countP (·.completed) :=
          List.countP_pos_iff.mpr ⟨_, List.getElem_mem hn, hc⟩
        omega
    · rfl
  inFlight := h.inFlight
  slots := h.slots
  listening := fun k hk => h.listening k (by simpa using hk)

/-! ## What a step can do -/

/-- The four events and all they change. The two player events find the
handlers `startListeners` registered. -/
theorem step_cases {s s' : State} {e : Event} (h : Inv s) (hstep : step s e = some s') :
    (∃ args, e = .addToQueue args ∧ s' = s.addToQueue args)
      ∨ (e = .startQueue ∧ s' = s.startQueue)
      ∨ (∃ n l, e = .complete n ∧ s.loads[n]? = some l ∧ l.completed = false
          ∧ s' = (markCompleted s n l).onComplete (.contentLoaderInfo n))
      ∨ (∃ n l, e = .ioError n ∧ s.loads[n]? = some l ∧ s' = markFailed s n l) := by
  cases e with
  | addToQueue args => exact Or.inl ⟨args, rfl, (Option.some.inj hstep).symm⟩
  | startQueue => exact Or.inr (Or.inl ⟨rfl, (Option.some.inj hstep).symm⟩)
  | complete n =>
      cases hl : s.loads[n]? with
      | none => simp [step, hl] at hstep
      | some l =>
          have hn : n < s.loads.length := (List.getElem?_eq_some_iff.mp hl).1
          cases hopen : l.completed with
          | true => simp [step, hl, hopen] at hstep
          | false =>
              refine Or.inr (Or.inr (Or.inl ⟨n, l, rfl, hl, hopen, ?_⟩))
              simp only [step, hl, hopen, fire, (h.listening n hn).1] at hstep
              exact (Option.some.inj hstep).symm
  | ioError n =>
      cases hl : s.loads[n]? with
      | none => simp [step, hl] at hstep
      | some l =>
          have hn : n < s.loads.length := (List.getElem?_eq_some_iff.mp hl).1
          refine Or.inr (Or.inr (Or.inr ⟨n, l, rfl, hl, ?_⟩))
          simp only [step, hl, fire, (h.listening n hn).2] at hstep
          exact (Option.some.inj hstep).symm

/-- **Step lemma.** Each event keeps the invariant, the two of the player for
the load that they are about. -/
theorem inv_step {s s' : State} {e : Event} (h : Inv s) (hstep : step s e = some s') : Inv s' := by
  rcases step_cases h hstep with
    ⟨args, rfl, rfl⟩ | ⟨rfl, rfl⟩ | ⟨n, l, rfl, hl, hopen, rfl⟩ | ⟨n, l, rfl, hl, rfl⟩
  · exact inv_addToQueue h args
  · exact inv_startQueue h
  · exact inv_onComplete h hl hopen _
  · exact inv_markFailed h hl

/-- **Run lemma.** The invariant holds in every reachable state. -/
theorem inv_run {args : List Url} {evs : List Event} {s : State}
    (hrun : Runs.run step (new args) evs = some s) : Inv s :=
  Runs.run_invariant Inv (fun _ _ _ => inv_step) (inv_new args) hrun

/-! ## The loader refines the pool of slots -/

/-- The urls that wait, the slots taken, the slots given back. -/
def toPool (s : State) : SlotPool :=
  ⟨s.queue.length - s.loadIndex, s.currentLoading, s.finishLoading⟩

/-- What the pool sees of an event: a failed load gives no slot back. -/
def poolEvent : Event → SlotPool.Event
  | .addToQueue args => .submit args.length
  | .startQueue => .fill
  | .complete _ => .release
  | .ioError _ => .idle

theorem toPool_startLoad (url : Url) (s : State) : toPool (s.startLoad url) = (toPool s).start := by
  simp only [toPool, SlotPool.start, startLoad_queue, startLoad_loadIndex,
    startLoad_currentLoading, startLoad_finishLoading]
  congr 1

theorem toPool_startLoop : ∀ (fuel : Nat) (s : State), s.queue.length - s.loadIndex ≤ fuel →
    toPool (startLoop fuel s) = (toPool s).fill MAX_LOAD
  | 0, s, hfuel => by
      refine (SlotPool.fill_done ?_).symm
      intro h
      exact absurd h.2 (Nat.not_lt.mpr hfuel)
  | fuel + 1, s, hfuel => by
      rw [startLoop]
      cases hurl : s.queue[s.loadIndex]? with
      | none =>
          have hle : s.queue.length ≤ s.loadIndex := List.getElem?_eq_none_iff.mp hurl
          refine (SlotPool.fill_done ?_).symm
          intro h
          exact absurd h.2 (Nat.not_lt.mpr (Nat.le_of_eq (Nat.sub_eq_zero_of_le hle)))
      | some url =>
          have hlt : s.loadIndex < s.queue.length := (List.getElem?_eq_some_iff.mp hurl).1
          simp only
          split
          · next hslot =>
              have hfuel' : (s.startLoad url).queue.length - (s.startLoad url).loadIndex ≤ fuel := by
                simp only [startLoad_queue, startLoad_loadIndex]
                omega
              rw [toPool_startLoop fuel _ hfuel', toPool_startLoad]
              exact SlotPool.fill_start hslot (Nat.sub_pos_of_lt hlt)
          · next hslot => exact (SlotPool.fill_done fun h => hslot h.1).symm

theorem toPool_startQueue (s : State) : toPool s.startQueue = (toPool s).fill MAX_LOAD :=
  toPool_startLoop _ s (Nat.le_refl _)

theorem toPool_onComplete {s : State} (h : Inv s) {n : Nat} {l : Load}
    (hl : s.loads[n]? = some l) (hopen : l.completed = false) (target : Obj) :
    toPool ((markCompleted s n l).onComplete target) = (toPool s).release MAX_LOAD := by
  rw [onComplete_eq]
  refine (toPool_startQueue _).trans ?_
  simp only [toPool, SlotPool.release, countCompletion_queue, countCompletion_loadIndex,
    countCompletion_currentLoading, countCompletion_finishLoading, markCompleted_queue,
    markCompleted_loadIndex, markCompleted_currentLoading, markCompleted_finishLoading,
    uintDecr_of_pos (h.slot_held hl hopen)]

/-- **Refinement, one step.** What an event does to the loader it does to the
pool. -/
theorem step_refines {s s' : State} {e : Event} (h : Inv s) (hstep : step s e = some s') :
    SlotPool.step MAX_LOAD (toPool s) (poolEvent e) = some (toPool s') := by
  rcases step_cases h hstep with
    ⟨args, rfl, rfl⟩ | ⟨rfl, rfl⟩ | ⟨n, l, rfl, hl, hopen, rfl⟩ | ⟨n, l, rfl, hl, rfl⟩
  · have := h.index_le
    simp only [poolEvent, SlotPool.step, SlotPool.submit, toPool, addToQueue,
      List.length_append, Option.some.injEq, SlotPool.mk.injEq, and_true]
    omega
  · rw [poolEvent, SlotPool.step, toPool_startQueue]
  · have hheld : 0 < (toPool s).held := h.slot_held hl hopen
    rw [poolEvent, SlotPool.step, if_pos hheld, toPool_onComplete h hl hopen]
  · rfl

/-- **Refinement, whole runs.** The pool takes every run that the loader takes.
-/
theorem run_refines_pool {args : List Url} {evs : List Event} {s : State}
    (hrun : Runs.run step (new args) evs = some s) :
    Runs.run (SlotPool.step MAX_LOAD) (toPool (new args)) (evs.map poolEvent)
      = some (toPool s) :=
  Runs.run_refines Inv toPool poolEvent (fun _ _ _ => inv_step) (fun _ _ _ => step_refines)
    (inv_new args) hrun

/-! ## The bounded queue -/

/-- In every reachable state the urls started are the first `loadIndex`
urls of the queue, in order and once each; the counters add up to
`loadIndex`; at most four loads hold a slot; and whenever a `COMPLETE`
can still come, `currentLoading` is positive, so its `--` does not wrap. -/
theorem bounded_queue {args : List Url} {evs : List Event} {s : State}
    (hrun : Runs.run step (new args) evs = some s) :
    s.loads.map (·.request) = s.queue.take s.loadIndex
      ∧ s.loadIndex ≤ s.queue.length
      ∧ s.currentLoading + s.finishLoading = s.loadIndex
      ∧ s.currentLoading ≤ 4
      ∧ ∀ n s', step s (.complete n) = some s' → 0 < s.currentLoading := by
  have h : Inv s := inv_run hrun
  have hbound : (toPool s).held ≤ MAX_LOAD :=
    SlotPool.run_held_le (Nat.zero_le _) (run_refines_pool hrun)
  refine ⟨h.requested, h.index_le, h.inFlight, hbound, ?_⟩
  intro n s' hstep
  rcases step_cases h hstep with ⟨_, he, -⟩ | ⟨he, -⟩ | ⟨_, l, he, hl, hopen, -⟩ | ⟨_, _, he, -⟩
  · cases he
  · cases he
  · exact h.slot_held hl hopen
  · cases he

/-- Five urls: the first fails, the third completes, and the fifth takes
the slot of the third. -/
theorem bounded_queue_five : ∃ s : State,
    Runs.run step (new ["a", "b", "c", "d", "e"]) [.startQueue, .ioError 0, .complete 2] = some s
      ∧ s.loadIndex = 5
      ∧ s.loads.map (·.request) = s.queue.take s.loadIndex
      ∧ s.currentLoading + s.finishLoading = s.loadIndex :=
  have h := @bounded_queue ["a", "b", "c", "d", "e"] [.startQueue, .ioError 0, .complete 2] _ rfl
  ⟨_, rfl, rfl, h.1, h.2.2.1⟩

end AssetLoader

end Resources
