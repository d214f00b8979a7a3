import Resources.AssetLoaderInv

/-!
# What a completion reports

`startQueue` files a url under the `Loader` (`dictionary[loader]`), but
the target of `COMPLETE` is the loader's `contentLoaderInfo`, the object
`startListeners` was called with, and `onComplete` reads
`dictionary[event.target]`. Keys compare by identity, so the lookup
misses every time (`Filed`): the count and the event type of a report are
right, its url is `undefined` (`complete_reports`).
-/

namespace Resources

namespace AssetLoader

open State

/-! ## The dictionary -/

/-- Every started url is filed under its loader, and nothing is filed
under a `LoaderInfo`. -/
structure Filed (s : State) : Prop where
  loader : ∀ n, s.dictionary (.loader n) = (s.loads[n]?).map (·.request)
  loaderInfo : ∀ n, s.dictionary (.contentLoaderInfo n) = none

theorem filed_new (args : List Url) : Filed (new args) where
  loader := fun _ => rfl
  loaderInfo := fun _ => rfl

theorem filed_startLoad {s : State} (h : Filed s) (url : Url) : Filed (s.startLoad url) where
  loader := fun n => by
    rw [startLoad_dictionary, startLoad_loads]
    rcases Nat.lt_trichotomy n s.loads.length with hlt | rfl | hgt
    · have hne : Obj.loader n ≠ .loader s.loads.length :=
        fun heq => absurd (Obj.loader.inj heq) (Nat.ne_of_lt hlt)
      rw [Function.update_of_ne hne, h.loader, List.getElem?_append_left hlt]
    · simp
    · have hne : Obj.loader n ≠ .loader s.loads.length :=
        fun heq => absurd (Obj.loader.inj heq) (Nat.ne_of_gt hgt)
      rw [Function.update_of_ne hne, h.loader, List.getElem?_eq_none (Nat.le_of_lt hgt),
        List.getElem?_eq_none (by simp; omega)]
  loaderInfo := fun n => by
    rw [startLoad_dictionary, Function.update_of_ne (by simp), h.loaderInfo]

theorem filed_startQueue {s : State} (h : Filed s) : Filed s.startQueue :=
  startQueue_keeps Filed (fun _ url h _ _ => filed_startLoad h url) h

/-- Marking how a load went leaves its request where it is filed. -/
theorem filed_set {s t : State} (h : Filed s) {n : Nat} {l : Load} (l' : Load)
    (hl : s.loads[n]? = some l) (hreq : l'.request = l.request)
    (hloads : t.loads = s.loads.set n l') (hdict : t.dictionary = s.dictionary) : Filed t where
  loader := fun k => by
    have hmap := congrArg (·[k]?) (requests_set l' hl hreq)
    simp only [List.getElem?_map] at hmap
    rw [hdict, h.loader, hloads, hmap]
  loaderInfo := fun k => by rw [hdict, h.loaderInfo]

theorem filed_step {s s' : State} {e : Event} (hi : Inv s) (h : Filed s)
    (hstep : step s e = some s') : Filed s' := by
  rcases step_cases hi hstep with
    ⟨args, rfl, rfl⟩ | ⟨rfl, rfl⟩ | ⟨n, l, rfl, hl, hopen, rfl⟩ | ⟨n, l, rfl, hl, rfl⟩
  · exact ⟨h.loader, h.loaderInfo⟩
  · exact filed_startQueue h
  · have hc : Filed (countCompletion (markCompleted s n l)) :=
      filed_set h { l with completed := true } hl rfl rfl rfl
    rw [onComplete_eq]
    exact ⟨(filed_startQueue hc).loader, (filed_startQueue hc).loaderInfo⟩
  · exact filed_set h { l with failed := true } hl rfl rfl rfl

/-- In every reachable state, nothing is filed where `onComplete` looks. -/
theorem filed_run {args : List Url} {evs : List Event} {s : State}
    (hrun : Runs.run step (new args) evs = some s) : Filed s :=
  (Runs.run_invariant (fun s => Inv s ∧ Filed s)
    (fun _ _ _ h hstep => ⟨inv_step h.1 hstep, filed_step h.1 h.2 hstep⟩)
    ⟨inv_new args, filed_new args⟩ hrun).2

/-! ## The report of one completion -/

def Event.isComplete : Event → Bool
  | .complete _ => true
  | _ => false

/-- `finishLoading` is the number of `COMPLETE` events so far. -/
theorem finishLoading_run {args : List Url} {evs : List Event} {s : State}
    (hrun : Runs.run step (new args) evs = some s) :
    s.finishLoading = evs.countP (·.isComplete) := by
  refine (Runs.run_history
    (fun evs s => Inv s ∧ s.finishLoading = evs.countP (·.isComplete))
    ⟨inv_new args, rfl⟩ (fun evs s e s' h hstep => ?_) hrun).2
  refine ⟨inv_step h.1 hstep, ?_⟩
  rw [List.countP_append, ← h.2]
  rcases step_cases h.1 hstep with
    ⟨args, rfl, rfl⟩ | ⟨rfl, rfl⟩ | ⟨n, l, rfl, hl, hopen, rfl⟩ | ⟨n, l, rfl, hl, rfl⟩
  · rfl
  · simp [Event.isComplete]
  · rw [onComplete_eq]
    exact startQueue_finishLoading _
  · rfl

/-- The report of the completion of load `n`, the `k`-th: the url the
loader was asked for, `k/queue.length`, and the type for the last one. -/
def ReportedAs (s s' : State) (n k : Nat) : Prop :=
  ∃ r : AssetLoaderEvent, s'.dispatched = s.dispatched ++ [r]
    ∧ r.parameters.1 = (s.loads[n]?).map (·.request)
    ∧ r.parameters.2 = toString k ++ "/" ++ toString s.queue.length
    ∧ (r.type = .ALL_COMPLETE_LOADING ↔ k = s.queue.length)

/-- Every completion of the run is reported as it should be. -/
def AllReported (args : List Url) (evs : List Event) : Prop :=
  ∀ pre n post, evs = pre ++ .complete n :: post →
    ∀ s s', Runs.run step (new args) pre = some s → step s (.complete n) = some s' →
      ReportedAs s s' n (pre.countP (·.isComplete) + 1)

/-- **What `onComplete` dispatches**: the count and the type are those of
the `k`-th completion, the url is `undefined`. -/
theorem complete_reports {args : List Url} {evs : List Event} {s s' : State} {n : Nat}
    (hrun : Runs.run step (new args) evs = some s) (hstep : step s (.complete n) = some s') :
    let k := evs.countP (·.isComplete) + 1
    s'.dispatched = s.dispatched ++
      [{ type := if k = s.queue.length then .ALL_COMPLETE_LOADING else .COMPLETE_LOADING
         parameters := (none, toString k ++ "/" ++ toString s.queue.length) }] := by
  have hi : Inv s := inv_run hrun
  have hfiled : Filed s' := filed_step hi (filed_run hrun) hstep
  rcases step_cases hi hstep with ⟨_, he, -⟩ | ⟨he, -⟩ | ⟨n', l, he, hl, hopen, hs'⟩ | ⟨_, _, he, -⟩
  · cases he
  · cases he
  · obtain rfl := Event.complete.inj he
    rw [onComplete_eq] at hs'
    have hnone : (countCompletion (markCompleted s n l)).startQueue.dictionary
        (.contentLoaderInfo n) = none := by
      have := hfiled.loaderInfo n
      rwa [hs'] at this
    rw [hs', ← finishLoading_run hrun]
    simp only [dispatchEvent, report, hnone, startQueue_dispatched, startQueue_finishLoading,
      startQueue_queue, countCompletion_dispatched, countCompletion_finishLoading,
      countCompletion_queue, markCompleted_dispatched, markCompleted_finishLoading,
      markCompleted_queue]
  · cases he

/-- A completed load was asked for some url, so its report is wrong. -/
theorem not_reportedAs {args : List Url} {evs : List Event} {s s' : State} {n : Nat}
    (hrun : Runs.run step (new args) evs = some s) (hstep : step s (.complete n) = some s')
    (k : Nat) : ¬ReportedAs s s' n k := by
  rintro ⟨r, hr, hurl, -, -⟩
  have hdisp := complete_reports hrun hstep
  rw [hr] at hdisp
  obtain rfl := List.singleton_inj.mp (List.append_cancel_left hdisp)
  rcases step_cases (inv_run hrun) hstep with
    ⟨_, he, -⟩ | ⟨he, -⟩ | ⟨n', l, he, hl, -, -⟩ | ⟨_, _, he, -⟩
  · cases he
  · cases he
  · obtain rfl := Event.complete.inj he
    rw [hl] at hurl
    cases hurl
  · cases he

/-- In a run, every completion is reported as it should be exactly when
there is no completion; each one that there is dispatches the right count
and type, with `undefined` for the url. -/
theorem reports_iff {args : List Url} {evs : List Event} {s : State}
    (hrun : Runs.run step (new args) evs = some s) :
    (AllReported args evs ↔ ∀ n, Event.complete n ∉ evs)
      ∧ ∀ pre n post, evs = pre ++ .complete n :: post →
          ∀ t t', Runs.run step (new args) pre = some t → step t (.complete n) = some t' →
            ∃ r : AssetLoaderEvent, t'.dispatched = t.dispatched ++ [r]
              ∧ r.parameters = (none, toString (pre.countP (·.isComplete) + 1) ++ "/"
                  ++ toString t.queue.length)
              ∧ (r.type = .ALL_COMPLETE_LOADING
                  ↔ pre.countP (·.isComplete) + 1 = t.queue.length) := by
  refine ⟨⟨?_, ?_⟩, ?_⟩
  · intro h n hn
    obtain ⟨pre, post, rfl⟩ := List.append_of_mem hn
    obtain ⟨t, ht, hrest⟩ := Runs.run_append.mp hrun
    obtain ⟨t', ht', -⟩ := Runs.run_cons.mp hrest
    exact not_reportedAs ht ht' _ (h pre n post rfl t t' ht ht')
  · intro h pre n post heq
    exact absurd (by simp [heq]) (h n)
  · intro pre n post _ t t' ht ht'
    refine ⟨_, complete_reports ht ht', rfl, ?_⟩
    simp only
    split <;> simp [*]

/-- One asset, loaded: its report does not say which. -/
theorem reports_iff_one :
    (AllReported ["map.swf"] [.startQueue, .complete 0]
      ↔ ∀ n, Event.complete n ∉ [Event.startQueue, .complete 0]) :=
  (@reports_iff ["map.swf"] [.startQueue, .complete 0] _ rfl).1

/-- The only load of a queue of one completes, and the report lacks its url. -/
theorem report_lacks_url : ¬AllReported ["map.swf"] [.startQueue, .complete 0] := by
  intro h
  exact @not_reportedAs ["map.swf"] [.startQueue] _ _ 0 rfl rfl 1
    (h [.startQueue] 0 [] rfl _ _ rfl rfl)

end AssetLoader

end Resources
