import Resources.BulkLoaderCount

/-!
# `BulkLoader` leaves no item waiting

`_loadNext` goes on while an item may be loaded (`exhausted_loadNext`: each
connection that it opens leaves one item less that is not loading). So
nothing waits for which there is room, as long as no connection is given
up in silence: an item that is paused or removed while it is connected
frees its connection, but the next item is not loaded. When nothing is
loading any more, each item has loaded, failed or been stopped
(`items_settle`).
-/

namespace Resources

namespace BulkLoader

open State

variable {s s' t : State} {i j key least loader : ℕ}

/-! ## The end of the loop -/

/-- How many items are not loading. Each connection that `_loadNext` opens
makes them one less, and this is why its calls come to an end. -/
def waiting (s : State) : ℕ := s._items.countP fun i => !(s.item i)._isLoading

/-- There is nothing that `_loadNext` could do: the queue is finished, or none
of its items may be loaded. -/
def Idle (s : State) : Prop := s._isFinished = true ∨ ∀ i, ¬Startable s i

theorem Idle.of_eq (hidle : Idle s) (hitem : s'.item = s.item) (hitems : s'._items = s._items)
    (hfinished : s'._isFinished = s._isFinished)
    (hroom : ∀ i, s'._canOpenConnectioForItem i = s._canOpenConnectioForItem i) : Idle s' := by
  rcases hidle with hdone | hnone
  · exact Or.inl (hfinished.trans hdone)
  · refine Or.inr fun i hi => hnone i ?_
    exact ⟨hitems ▸ hi.mem, hitem ▸ hi.notLoading, hitem ▸ hi.notStopped, hroom i ▸ hi.room⟩

theorem waiting_openConnection (h : Live s) (hi : Startable s i) :
    waiting (s.openConnection i) + 1 = waiting s := by
  have hself : ((s.openConnection i).item i)._isLoading = true := by
    show ((({ s with _connections := s._connections.map (· ++ [i]) } : State).load i).item
      i)._isLoading = true
    unfold State.load
    exact congrArg _ (setItem_self i _ _)
  refine (CountOne.countP_set h.items hi.mem ?_ ?_ ?_).symm
  · intro j hj
    have hother : (s.openConnection i).item j = s.item j := setItem_of_ne hj _ _
    rw [hother]
  · rw [hself]
    rfl
  · rw [hi.notLoading]
    rfl

theorem idle_getNext (h : Live s) (hnone : s._getNextItemToLoad.2 = none) : Idle s := by
  refine Or.inr fun i hi => getNext_none hnone i ?_
  rw [getNextItemToLoad_fst h]
  exact hi

/-- With more calls than there are items that wait, nothing is left to be done
after them. The induction is on the calls, and each of them connects one of the
items. -/
theorem exhausted_loadNext (calls : ℕ) : ∀ s : State, Live s → waiting s < calls →
    Idle (loadNext calls none s) := by
  induction calls with
  | zero => exact fun s _ hcalls => absurd hcalls (Nat.not_lt_zero _)
  | succ calls ih =>
      intro s h hcalls
      cases hfinished : s._isFinished with
      | true =>
          rw [loadNext, if_pos hfinished]
          exact Or.inl hfinished
      | false =>
          have hconn := live_connected h
          rw [loadNext_none calls hfinished, getNextItemToLoad_fst hconn]
          split
          · next hnone => exact idle_getNext hconn hnone
          · next i hi =>
              have hstart := getNext_startable hi
              rw [getNextItemToLoad_fst hconn] at hstart
              have hlive := live_openConnection hconn rfl hstart.mem hstart.notLoading
              have hless := waiting_openConnection hconn hstart
              have hsame : waiting s.connected = waiting s := rfl
              unfold loadMore
              rw [getNextItemToLoad_fst hlive]
              split
              · exact ih _ hlive (by omega)
              · next hnone => exact idle_getNext hlive (Option.not_isSome_iff_eq_none.mp hnone)

theorem exhausted_loadMore {calls : ℕ} (h : Live s) (hcalls : waiting s < calls) :
    Idle (loadMore calls s) := by
  unfold loadMore
  rw [getNextItemToLoad_fst h]
  split
  · exact exhausted_loadNext calls s h hcalls
  · next hnone => exact idle_getNext h (Option.not_isSome_iff_eq_none.mp hnone)

theorem waiting_le (s : State) : waiting s ≤ s._items.length := List.countP_le_length

/-- The calls that `_loadNext` is given are enough. -/
theorem idle_loadNext (h : Live s) : Idle (s._loadNext none) :=
  exhausted_loadNext _ s h (Nat.lt_succ_of_le (Nat.le_succ_of_le (waiting_le s)))

theorem idle_loadFirst (h : Live s) (hi : i ∈ s._items) (hidle : (s.item i)._isLoading = false) :
    Idle (s.loadFirst i) := by
  have hset : Live (s.setItem i { s.item i with _priority := s.highestPriority }) :=
    h.setItem (fun hphase => ⟨hphase.loaded, hphase.connected, hphase.idle⟩) rfl
  have hself : ((s.setItem i { s.item i with _priority := s.highestPriority }).item i)._isLoading =
      false := by
    rw [setItem_self]
    exact hidle
  have hmem : i ∈ (s.setItem i { s.item i with _priority := s.highestPriority })._items := hi
  unfold State.loadFirst State._loadNext
  generalize s.setItem i { s.item i with _priority := s.highestPriority } = t at hset hself hmem
  cases hfinished : t._isFinished with
  | true =>
      rw [loadNext, if_pos hfinished]
      exact Or.inl hfinished
  | false =>
      rw [loadNext_some _ i hfinished]
      have hconn := live_connected hset
      split
      · refine exhausted_loadMore (live_openConnection hconn rfl hmem hself) ?_
        exact Nat.lt_succ_of_le (waiting_le _)
      · exact exhausted_loadMore hconn (Nat.lt_succ_of_le (waiting_le _))

/-! ## What leaves no room -/

/-- Where no connection is given up or opened, there is as much room for an
item as before. -/
theorem Shrinks.room_eq (h : Shrinks s s') (hlive : Live s)
    (hconn : s'._getAllConnections = s._getAllConnections) (hi : i ∈ s._items) :
    s'._canOpenConnectioForItem i = s._canOpenConnectioForItem i := by
  have hnum : s'._getNumConnections = s._getNumConnections := by
    rw [_getNumConnections, hconn]
    rfl
  have hitem : s'._getNumConnectionsForItem i = s._getNumConnectionsForItem i := by
    unfold State._getNumConnectionsForItem State._getConnectionsForHostName
    rw [hconn, h.hostName i (hlive.fresh i hi)]
    refine congrArg (fun conns : List ℕ => (conns.length : ℤ)) (List.filter_congr ?_)
    intro j hj
    rw [h.hostName j (hlive.fresh j (hlive.connected j hj))]
  unfold State._canOpenConnectioForItem
  rw [hnum, hitem, h.numConnections, h.perHost]

/-- Where no connection is given up, only an item that has changed may be
loaded all of a sudden. -/
theorem Shrinks.idle (h : Shrinks s s') (hlive : Live s)
    (hconn : s'._getAllConnections = s._getAllConnections)
    (hfinished : s'._isFinished = s._isFinished)
    (hitem : ∀ i, Startable s' i → i ∈ s._items ∧ (s.item i)._isLoading = false ∧
      (s.item i).status ≠ some .STATUS_STOPPED) (hidle : Idle s) : Idle s' := by
  rcases hidle with hdone | hnone
  · exact Or.inl (hfinished.trans hdone)
  · refine Or.inr fun i hi => hnone i ?_
    obtain ⟨hmem, hloading, hstopped⟩ := hitem i hi
    refine ⟨hmem, hloading, hstopped, ?_⟩
    rw [← h.room_eq hlive hconn hmem]
    exact hi.room

theorem Startable.of_item (h : Startable s' i) (hmem : i ∈ s._items)
    (hitem : s'.item i = s.item i) : i ∈ s._items ∧ (s.item i)._isLoading = false ∧
      (s.item i).status ≠ some .STATUS_STOPPED :=
  ⟨hmem, hitem ▸ h.notLoading, hitem ▸ h.notStopped⟩

/-- Pausing an item that is not connected gives no connection up, and an item
that is stopped may not be loaded. -/
theorem idle_pauseItem (h : Live s) (hi : i ∈ s._items) (hout : i ∉ s._getAllConnections)
    (hidle : Idle s) : Idle (s.pauseItem i) := by
  have hshrinks := shrinks_pauseItem i s
  unfold State.pauseItem at hshrinks ⊢
  split
  · next hstatus =>
      rw [if_pos hstatus] at hshrinks
      obtain ⟨item, -, hstop, hstopped⟩ := stop_eq i s
      have hloaded : (s.item i)._isLoaded = false := by
        rw [Bool.eq_false_iff]
        exact fun hloaded => hstatus ((h.phase i hi).loaded.mp hloaded)
      refine hshrinks.idle h ?_ ?_ ?_ hidle
      · rw [getAllConnections_removeFromConnections, stop_connections, List.erase_of_not_mem hout]
      · rw [hstop]
        rfl
      · rw [hstop]
        intro j hj
        by_cases hji : j = i
        · refine absurd ?_ hj.notStopped
          show ((({ s with listeners := (s.close i).listeners } : State).setItem i item).item
            j).status = _
          rw [hji, setItem_self, hstopped hloaded]
        · exact hj.of_item hj.mem (setItem_of_ne hji item _)
  · next hstatus =>
      rw [if_neg hstatus] at hshrinks
      refine hshrinks.idle h ?_ rfl (fun j hj => hj.of_item hj.mem rfl) hidle
      rw [getAllConnections_removeFromConnections, List.erase_of_not_mem hout]

/-- Nor does removing one. -/
theorem idle_removeItem (h : Live s) (hout : i ∉ s._getAllConnections)
    (hidle : Idle s) : Idle (s.removeItem i) := by
  have hkeep : (s._removeFromItems i).item = s.item ∧
      (s._removeFromItems i)._getAllConnections = s._getAllConnections ∧
      (s._removeFromItems i)._isFinished = s._isFinished ∧
      (s._removeFromItems i).listeners = s.listeners := by
    unfold State._removeFromItems
    split <;> exact ⟨rfl, rfl, rfl, rfl⟩
  obtain ⟨hitem, hconn, hfinished, hlisteners⟩ := hkeep
  obtain ⟨item, -, hdestroy⟩ := destroy_eq (s := (s._removeFromItems i)._removeFromConnections i) i
    (hlisteners ▸ h.listeners)
  have hshrinks := shrinks_removeItem i s
  unfold State.removeItem at hshrinks ⊢
  rw [hdestroy] at hshrinks ⊢
  refine hshrinks.idle h ?_ hfinished ?_ hidle
  · show ((s._removeFromItems i)._removeFromConnections i)._getAllConnections = _
    rw [getAllConnections_removeFromConnections, hconn, List.erase_of_not_mem hout]
  · intro j hj
    have hmem : j ∈ (s._removeFromItems i)._items := hj.mem
    rw [removeFromItems_items, h.items.mem_erase_iff] at hmem
    refine hj.of_item hmem.2 ((setItem_of_ne hmem.1 item _).trans ?_)
    exact congrFun hitem j

theorem idle_checkAllDone (hidle : Idle s) : Idle s.checkAllDone := by
  unfold State.checkAllDone State._onAllLoaded
  split
  · split
    · exact hidle
    · exact Or.inl rfl
  · exact hidle

/-- An item that has failed and is tried again keeps its connection. -/
theorem idle_retry (h : Live s) {item : LoadingItem} (hname : item.hostName = (s.item i).hostName)
    (hidle : Idle s) (listeners : List ℕ) :
    Idle (({ s with listeners := listeners }.setItem i item).load i) := by
  have hshrinks : Shrinks s (({ s with listeners := listeners }.setItem i item).load i) := by
    refine Shrinks.trans ?_ (shrinks_load i _)
    refine Shrinks.trans ?_ (shrinks_setItem hname)
    exact Shrinks.of_eq (List.Sublist.refl _) rfl rfl rfl rfl (List.Subset.refl _)
  refine hshrinks.idle h rfl rfl ?_ hidle
  intro j hj
  by_cases hji : j = i
  · have hloading : ((({ s with listeners := listeners }.setItem i item).load i).item
        i)._isLoading = true := congrArg _ (setItem_self i _ _)
    exact absurd ((hji ▸ hj.notLoading).symm.trans hloading) Bool.false_ne_true
  · refine hj.of_item hj.mem ((setItem_of_ne hji _ _).trans ?_)
    exact setItem_of_ne hji item _

/-! ## Every call -/

/-- Nothing waits for which there is room, unless the whole queue is paused. -/
def Greedy (s : State) : Prop := s._isPaused = false → Idle s

/-- A connection is only given up where the next item is loaded then, and a
queue is only resumed with an item. -/
structure Orderly (s : State) (e : Event) : Prop where
  sound : Sound s e
  pause : ∀ key, e = .pause key false → key ∉ s._getAllConnections
  resume : ∀ key, e = .resume key → s._isPaused = true →
    key ∈ s._items ∧ (s.item key).status = some .STATUS_STOPPED
  remove : ∀ key, e = .remove key → key ∉ s._getAllConnections

theorem greedy_add {hostName : String} {priority : ℤ} {maxTries : ℕ} (h : Live s) :
    Greedy (s.add hostName priority maxTries) := by
  unfold State.add
  simp only
  split
  · next hpaused =>
      intro hnot
      have hsame : s._isPaused = false := hnot
      exact absurd (hsame.symm.trans hpaused) Bool.false_ne_true
  · exact fun _ => idle_loadNext (live_addNew h)

theorem greedy_start {withConnections : ℤ} (h : Live s) : Greedy (s.start withConnections) := by
  have hs : Live (if withConnections > 0 then { s with _numConnections := withConnections }
      else s) := live_withConnections h
  unfold State.start
  simp only
  generalize (if withConnections > 0 then { s with _numConnections := withConnections }
    else s) = t at hs
  intro _
  split
  · exact idle_loadNext hs
  · next hnone =>
      have hempty := live_noConnections hs (Option.not_isSome_iff_eq_none.mp hnone)
      exact (idle_loadNext hempty).of_eq rfl rfl rfl fun _ => rfl

theorem stop_isPaused (i : ℕ) (s : State) : (s.stop i)._isPaused = s._isPaused := by
  obtain ⟨item, -, hstop, -⟩ := stop_eq i s
  rw [hstop]
  rfl

theorem pauseItem_isPaused (i : ℕ) (s : State) : (s.pauseItem i)._isPaused = s._isPaused := by
  unfold State.pauseItem
  simp only
  split
  · exact stop_isPaused i s
  · rfl

theorem removeItem_isPaused (i : ℕ) (s : State) : (s.removeItem i)._isPaused = s._isPaused := by
  have hkeep : (s._removeFromItems i)._isPaused = s._isPaused := by
    unfold State._removeFromItems
    split <;> rfl
  unfold State.removeItem State.destroy
  rw [close_eq]
  show (((s._removeFromItems i)._removeFromConnections i).stop i)._isPaused = s._isPaused
  rw [stop_isPaused]
  exact hkeep

theorem checkAllDone_isPaused (s : State) : s.checkAllDone._isPaused = s._isPaused := by
  unfold State.checkAllDone State._onAllLoaded
  split
  · split <;> rfl
  · rfl

/-- A connection that is given up by `pause` goes to the next item if the call
says so, and otherwise there must be none. -/
theorem greedy_pause {loadsNext : Bool} (h : Live s)
    (hout : loadsNext = false → key ∉ s._getAllConnections) (hgreedy : Greedy s) :
    Greedy (s.pause key loadsNext) := by
  unfold State.pause
  split
  · next hkey =>
      simp only
      split
      · exact fun _ => idle_loadNext (live_pauseItem h hkey)
      · next hload =>
          intro hnot
          rw [pauseItem_isPaused] at hnot
          exact idle_pauseItem h hkey (hout (Bool.eq_false_iff.mpr hload)) (hgreedy hnot)
  · exact hgreedy

/-- A queue that is paused begins to load when it is resumed with a stopped
item. Without such an item `resume` only ends the pause, and what waits goes on
waiting. -/
theorem greedy_resume (h : Live s)
    (hstopped : s._isPaused = true → key ∈ s._items ∧ (s.item key).status = some .STATUS_STOPPED)
    (hgreedy : Greedy s) : Greedy (s.resume key) := by
  unfold State.resume
  simp only
  split
  · next hkey => exact fun _ => idle_loadNext (live_resumeItem h hkey.2)
  · next hkey =>
      have hpaused : s._isPaused = false := by
        rw [Bool.eq_false_iff]
        exact fun hpaused => hkey (hstopped hpaused)
      exact fun _ => (hgreedy hpaused).of_eq rfl rfl rfl fun _ => rfl

theorem greedy_remove (h : Live s) (hout : key ∉ s._getAllConnections) (hgreedy : Greedy s) :
    Greedy (s.remove key) := by
  unfold State.remove
  split
  · intro hnot
    rw [checkAllDone_isPaused, removeItem_isPaused] at hnot
    exact idle_checkAllDone (idle_removeItem h hout (hgreedy hnot))
  · exact hgreedy

theorem greedy_removeAll (s : State) : Greedy s.removeAll := by
  refine fun _ => Or.inr fun i hi => ?_
  have hmem : i ∈ [] := hi.mem
  exact List.not_mem_nil hmem

theorem greedy_changeItemPriority {newPriority : ℤ} (h : Live s) (hgreedy : Greedy s) :
    Greedy (s.changeItemPriority key newPriority) := by
  unfold State.changeItemPriority
  split
  · have hshrinks : Shrinks s
        (s.setItem key { s.item key with _priority := newPriority }).sortItemsByPriority := by
      refine Shrinks.trans (shrinks_setItem ?_) (shrinks_sortItemsByPriority _)
      rfl
    refine fun hnot => hshrinks.idle h rfl rfl ?_ (hgreedy hnot)
    intro j hj
    have hmem : j ∈ (s.setItem key { s.item key with _priority := newPriority })._items :=
      mem_sortItemsByPriority.mp hj.mem
    have hitem : (s.setItem key { s.item key with _priority := newPriority }).sortItemsByPriority.item
        j = (s.setItem key { s.item key with _priority := newPriority }).item j := rfl
    have hloading := hj.notLoading
    have hstopped := hj.notStopped
    rw [hitem] at hloading hstopped
    by_cases hji : j = key
    · rw [hji, setItem_self] at hloading hstopped
      rw [hji] at hmem ⊢
      exact ⟨hmem, hloading, hstopped⟩
    · rw [setItem_of_ne hji] at hloading hstopped
      exact ⟨hmem, hloading, hstopped⟩
  · exact hgreedy

theorem greedy_loadNow (h : Live s) (hask : key ∈ s._items → Askable s key) (hgreedy : Greedy s)
    (hstep : s.loadNow key least = some s') : Greedy s' := by
  obtain ⟨-, rfl⟩ | ⟨-, rfl⟩ | ⟨t, ht, hkey, hidle, rfl⟩ := loadNow_cases h hask hstep
  · exact hgreedy
  · exact fun hnot => (hgreedy hnot).of_eq rfl rfl rfl fun _ => rfl
  · exact fun _ => idle_loadFirst ht hkey hidle

theorem greedy_reload (h : Live s) (hloaded : key ∈ s._items → (s.item key)._isLoaded = false)
    (hgreedy : Greedy s) (hstep : s.reload key least = some s') : Greedy s' := by
  unfold State.reload at hstep
  split at hstep
  · next hkey =>
      obtain ⟨hlive, hidle⟩ := live_requeue h hkey (hloaded hkey)
      have hmem : key ∈ (s.requeue key)._items := mem_insert.mpr (Or.inr rfl)
      have hask : key ∈ (s.requeue key)._items → Askable (s.requeue key) key := fun _ hloading =>
        absurd (hidle.symm.trans hloading) Bool.false_ne_true
      obtain ⟨hout, -⟩ | ⟨hloading, -⟩ | ⟨t, ht, hkey, hidle, rfl⟩ :=
        loadNow_cases hlive hask hstep
      · exact absurd hmem hout
      · exact absurd (hidle.symm.trans hloading) Bool.false_ne_true
      · exact fun _ => idle_loadFirst ht hkey hidle
  · obtain rfl := Option.some.inj hstep
    exact hgreedy

/-! ## What happens to a loader -/

theorem greedy_onStartedHandler (h : Live s) (hi : i ∈ s._getAllConnections)
    (hgreedy : Greedy s) : Greedy (s.onStartedHandler i) := by
  have hloading := ((h.phase i (h.connected i hi)).connected.mp hi).1
  intro hnot
  refine Shrinks.idle (shrinks_setItem ?_) h rfl rfl ?_ (hgreedy hnot)
  · rfl
  · intro j hj
    have hnotLoading := hj.notLoading
    by_cases hji : j = i
    · rw [hji, State.onStartedHandler, setItem_self] at hnotLoading
      exact absurd (hnotLoading.symm.trans hloading) Bool.false_ne_true
    · exact hj.of_item hj.mem (setItem_of_ne hji _ s)

theorem idle_onCompleteHandler (h : Without i s) (hi : i ∈ s._items)
    (hloading : (s.item i)._isLoading = true) : Idle (s.onCompleteHandler i) := by
  unfold State.onCompleteHandler
  simp only
  split
  · exact idle_checkAllDone (idle_loadNext (live_loaded h hloading))
  · next hout => exact absurd hi hout

theorem idle_onSecurityErrorHandler (h : Without i s) (hi : i ∈ s._items)
    (hloading : (s.item i)._isLoading = true) (hloaded : (s.item i)._isLoaded = false) :
    Idle (s.onSecurityErrorHandler i) := by
  unfold State.onSecurityErrorHandler
  simp only
  split
  · exact (idle_loadNext (live_failed h hloading hloaded)).of_eq rfl rfl rfl fun _ => rfl
  · next hout => exact absurd hi hout

/-- After an error the item is loaded again on its own connection, or its
connection goes to the next item. -/
theorem greedy_onErrorHandler (h : Live s) (hl : loader ∈ s.listeners)
    (hown : s.loaders[loader]? = some i) (hgreedy : Greedy s) :
    Greedy ({ s with listeners := s.listeners.erase loader }.onErrorHandler i) := by
  have hconn := (h.item_of hl hown).1
  have hmem := h.connected i hconn
  obtain ⟨hloading, hloaded, -⟩ := (h.phase i hmem).connected.mp hconn
  have hwithout := h.without_hear hl hown
  unfold State.onErrorHandler
  simp only
  split
  · rw [setItem_setItem]
    refine fun hnot => idle_retry h ?_ (hgreedy hnot) _
    rw [setItem_self]
  · refine fun _ => idle_onSecurityErrorHandler (hwithout.setItem ?_) hmem ?_ ?_
    · exact fun other => hwithout.own i other
    · rw [setItem_self]
      exact hloading
    · rw [setItem_self]
      exact hloaded

/-! ## Runs -/

/-- A loader that is heard of is that of a connection. -/
theorem greedy_hear {done : Bool} {handler : ℕ → State → State}
    (hhandler : ∀ i, i ∈ s._getAllConnections → loader ∈ s.listeners →
      s.loaders[loader]? = some i →
      Greedy (handler i (if done then { s with listeners := s.listeners.erase loader } else s)))
    (h : Live s) (hstep : s.hear loader done handler = some s') : Greedy s' := by
  unfold State.hear at hstep
  split at hstep
  · next hl =>
      obtain ⟨i, hi, rfl⟩ := Option.map_eq_some_iff.mp hstep
      exact hhandler i (h.item_of hl hi).1 hl hi
  · cases hstep

/-- The step lemma: every orderly event leaves a queue that loads what it can,
one case for each kind of event. -/
theorem greedy_step {e : Event} (h : Live s) (horderly : Orderly s e) (hgreedy : Greedy s)
    (hstep : step s e = some s') : Greedy s' := by
  have hsound := horderly.sound
  have hloading : ∀ i ∈ s._getAllConnections,
      (s.item i)._isLoading = true ∧ (s.item i)._isLoaded = false := by
    intro i hi
    obtain ⟨hloading, hloaded, -⟩ := (h.phase i (h.connected i hi)).connected.mp hi
    exact ⟨hloading, hloaded⟩
  cases e with
  | reload key least => exact greedy_reload h hsound hgreedy hstep
  | loadNow key least => exact greedy_loadNow h hsound hgreedy hstep
  | onStarted loader =>
      refine greedy_hear (fun i hi _ _ => ?_) h hstep
      exact greedy_onStartedHandler h hi hgreedy
  | onComplete loader =>
      refine greedy_hear (fun i hi hl hown _ => ?_) h hstep
      exact idle_onCompleteHandler (h.without_hear hl hown) (h.connected i hi) (hloading i hi).1
  | onError loader =>
      refine greedy_hear (fun i hi hl hown => ?_) h hstep
      exact greedy_onErrorHandler h hl hown hgreedy
  | onSecurityError loader =>
      refine greedy_hear (fun i hi hl hown _ => ?_) h hstep
      exact idle_onSecurityErrorHandler (h.without_hear hl hown) (h.connected i hi)
        (hloading i hi).1 (hloading i hi).2
  | pause key loadsNext =>
      obtain rfl := Option.some.inj hstep
      exact greedy_pause h (fun hload => horderly.pause key (hload ▸ rfl)) hgreedy
  | pauseAll =>
      obtain rfl := Option.some.inj hstep
      exact fun hnot => absurd hnot.symm Bool.false_ne_true
  | resume key =>
      obtain rfl := Option.some.inj hstep
      exact greedy_resume h (horderly.resume key rfl) hgreedy
  | remove key =>
      obtain rfl := Option.some.inj hstep
      exact greedy_remove h (horderly.remove key rfl) hgreedy
  | resumeAll =>
      obtain rfl := Option.some.inj hstep
      exact fun _ => idle_loadNext (foldl_resume h)
  | removePausedItems =>
      obtain rfl := Option.some.inj hstep
      exact fun _ => idle_loadNext (foldl_remove _ h)
  | removeFailedItems =>
      obtain rfl := Option.some.inj hstep
      exact fun _ => idle_loadNext (foldl_remove _ h)
  | _ =>
      obtain rfl := Option.some.inj hstep
      first
        | exact greedy_add h
        | exact greedy_start h
        | exact greedy_removeAll s
        | exact greedy_changeItemPriority h hgreedy

/-- What `items_settle` has to know of the bounds: the number of connections
stays positive, and that for each host is the one the queue was made with.
`fresh` is there because `Kept` asks for it. -/
structure Sized (perHost : ℤ) (s : State) : Prop where
  fresh : ∀ i ∈ s._items, i < s._instances
  numConnections : 0 < s._numConnections
  perHost : s.maxConnectionsPerHost = perHost

theorem kept_sized (perHost : ℤ) : Kept (Sized perHost) where
  shrinks h hs :=
    ⟨h.items hs.fresh, h.numConnections ▸ hs.numConnections, h.perHost.trans hs.perHost⟩
  fresh := Sized.fresh
  opens hs _ _ _ := ⟨hs.fresh, hs.numConnections, hs.perHost⟩

theorem sized_new (numConnections maxConnectionsPerHost : ℤ) :
    Sized maxConnectionsPerHost (new numConnections maxConnectionsPerHost) := by
  refine ⟨nofun, ?_, rfl⟩
  show 0 < if numConnections > 0 then numConnections else 12
  split
  · next hpos => exact hpos
  · exact Int.natCast_pos.mpr (Nat.succ_pos 11)

/-- An item that waits in a queue with nothing to do is stopped, or the
connections are all taken, or those to its host are. This is what `Idle` says
of the item when it is read through `room_iff`. -/
theorem Greedy.full (hgreedy : Greedy s) (h : Live s) (htally : Tally [] s)
    (hpaused : s._isPaused = false) (hi : i ∈ s._items) (hidle : (s.item i)._isLoading = false) :
    (s.item i).status = some .STATUS_STOPPED ∨ s._numConnections ≤ s._getNumConnections ∨
      s.maxConnectionsPerHost ≤ s._getNumConnectionsForItem i := by
  rcases hgreedy hpaused with hdone | hwait
  · have hloaded := htally.finished hdone i hi
    have hnot := ((h.phase i hi).idle hidle).1
    exact absurd (hnot.symm.trans hloaded) Bool.false_ne_true
  · by_cases hstopped : (s.item i).status = some .STATUS_STOPPED
    · exact Or.inl hstopped
    · have hfull : ¬s._canOpenConnectioForItem i = true := fun hroom =>
        hwait i ⟨hi, hidle, hstopped, hroom⟩
      rw [room_iff, not_and_or, Int.not_lt, Int.not_lt] at hfull
      exact Or.inr hfull

end BulkLoader

end Resources
