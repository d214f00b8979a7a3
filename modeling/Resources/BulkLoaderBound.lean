import Resources.BulkLoader

/-!
# What `BulkLoader` counts as its connections is bounded

Only `_loadNext` opens connections, one at a time and only where there is
room; `loadNext_rule` is the induction over its calls. Everything else
gives connections up at most (`Shrinks`). So the array `_connections` is
within the two bounds in every run (`bounded_run`). That the loaders which
are loading are within them too takes more, because the array can lose
sight of a loader; see `connections_bounded`, of the next module.
-/

namespace Resources

namespace BulkLoader

open State

variable {s s' t : State} {i key least : ℕ}

/-! ## What one operation changes -/

@[simp] theorem setItem_self (i : ℕ) (item : LoadingItem) (s : State) :
    (s.setItem i item).item i = item := by
  simp [setItem]

theorem setItem_of_ne {i j : ℕ} (h : j ≠ i) (item : LoadingItem) (s : State) :
    (s.setItem i item).item j = s.item j := by
  simp [setItem, h]

theorem getAllConnections_removeFromConnections (i : ℕ) (s : State) :
    (s._removeFromConnections i)._getAllConnections = s._getAllConnections.erase i := by
  unfold _removeFromConnections _getAllConnections
  cases s._connections <;> rfl

theorem getAllConnections_openConnection (i : ℕ) (h : s._connections.isSome) :
    (s.openConnection i)._getAllConnections = s._getAllConnections ++ [i] := by
  obtain ⟨connections, hconn⟩ := Option.isSome_iff_exists.mp h
  unfold openConnection load setItem _getAllConnections
  simp only [hconn]
  rfl

/-! ## The loop -/

/-- The conditions by which `_getNextItemToLoad` chooses: an item of the list
that is neither loading nor stopped, and for which there is a connection left.
-/
structure Startable (s : State) (i : ℕ) : Prop where
  mem : i ∈ s._items
  notLoading : (s.item i)._isLoading = false
  notStopped : (s.item i).status ≠ some .STATUS_STOPPED
  room : s._canOpenConnectioForItem i = true

/-- What `_getNextItemToLoad` finds may be loaded, in the state that it leaves:
it has taken connections of failed items away before. -/
theorem getNext_startable (h : s._getNextItemToLoad.2 = some i) :
    Startable s._getNextItemToLoad.1 i := by
  have hmem := List.mem_of_find?_eq_some h
  have hfound := List.find?_some h
  rw [Bool.and_eq_true, Bool.and_eq_true, Bool.not_eq_true', bne_iff_ne] at hfound
  exact ⟨hmem, hfound.1.1, hfound.1.2, hfound.2⟩

/-- Where `_getNextItemToLoad` finds nothing there is nothing to find. -/
theorem getNext_none (h : s._getNextItemToLoad.2 = none) (i : ℕ) :
    ¬Startable s._getNextItemToLoad.1 i := by
  intro hi
  have hnone := List.find?_eq_none.mp h i hi.mem
  refine hnone ?_
  rw [Bool.and_eq_true, Bool.and_eq_true, Bool.not_eq_true', bne_iff_ne]
  exact ⟨⟨hi.notLoading, hi.notStopped⟩, hi.room⟩

/-- What follows in `_loadNext` on a connection: the next item is looked for,
and if there is one the function calls itself. -/
def State.loadMore (calls : ℕ) (s : State) : State :=
  if s._getNextItemToLoad.2.isSome then loadNext calls none s._getNextItemToLoad.1
  else s._getNextItemToLoad.1

/-- `_loadNext` for an item that was asked for, which is not looked at again,
not even whether it is loading already. -/
theorem loadNext_some (calls i : ℕ) (h : s._isFinished = false) :
    loadNext (calls + 1) (some i) s =
      loadMore calls (if s.connected._canOpenConnectioForItem i then s.connected.openConnection i
        else s.connected) := by
  rw [loadNext, if_neg (h ▸ Bool.false_ne_true)]
  rfl

/-- `_loadNext` for the next item. The check of the room is made twice in the
source, and the second one always succeeds. -/
theorem loadNext_none (calls : ℕ) (h : s._isFinished = false) :
    loadNext (calls + 1) none s =
      match s.connected._getNextItemToLoad.2 with
      | none => s.connected._getNextItemToLoad.1
      | some i => loadMore calls (s.connected._getNextItemToLoad.1.openConnection i) := by
  rw [loadNext, if_neg (h ▸ Bool.false_ne_true)]
  show (match s.connected._getNextItemToLoad.2 with
    | none => s.connected._getNextItemToLoad.1
    | some i => loadMore calls (if s.connected._getNextItemToLoad.1._canOpenConnectioForItem i then
        s.connected._getNextItemToLoad.1.openConnection i
      else s.connected._getNextItemToLoad.1)) = _
  split
  · rfl
  · next i hnext => rw [if_pos (getNext_startable hnext).room]

/-- The induction rule for `_loadNext`: what holds before it, and is kept by
each connection that it opens of itself, holds after it. The induction is on
the number of calls, and `Startable` is all that is known of an item that is
connected. -/
theorem loadNext_rule {P : State → Prop} (hconnected : ∀ s, P s → P s.connected)
    (hnext : ∀ s, P s → P s._getNextItemToLoad.1)
    (hopen : ∀ s i, P s → s._connections.isSome → s._isFinished = false → Startable s i →
      P (s.openConnection i)) :
    ∀ calls s, P s → P (loadNext calls none s) := by
  intro calls
  induction calls with
  | zero => exact fun s h => h
  | succ calls ih =>
      intro s h
      cases hfinished : s._isFinished with
      | true =>
          rw [loadNext, if_pos hfinished]
          exact h
      | false =>
          rw [loadNext_none calls hfinished]
          have hs := hnext _ (hconnected s h)
          split
          · exact hs
          · next i hi =>
              have ht := hopen _ i hs rfl hfinished (getNext_startable hi)
              unfold loadMore
              split
              · exact ih _ (hnext _ ht)
              · exact hnext _ ht

/-- The same rule for an item that is to be loaded now. Its own connection is a
case apart, since the item need not be one that `_getNextItemToLoad` would
choose. -/
theorem loadNext_rule_some {P : State → Prop} (hconnected : ∀ s, P s → P s.connected)
    (hnext : ∀ s, P s → P s._getNextItemToLoad.1)
    (hopen : ∀ s i, P s → s._connections.isSome → s._isFinished = false → Startable s i →
      P (s.openConnection i)) (calls : ℕ) (h : P s)
    (hnow : s._isFinished = false → s.connected._canOpenConnectioForItem i = true →
      P (s.connected.openConnection i)) : P (loadNext (calls + 1) (some i) s) := by
  cases hfinished : s._isFinished with
  | true =>
      rw [loadNext, if_pos hfinished]
      exact h
  | false =>
      rw [loadNext_some calls i hfinished]
      have ht : P (if s.connected._canOpenConnectioForItem i then s.connected.openConnection i
          else s.connected) := by
        split
        · next hroom => exact hnow hfinished hroom
        · exact hconnected s h
      generalize (if s.connected._canOpenConnectioForItem i then s.connected.openConnection i
        else s.connected) = u at ht
      unfold loadMore
      split
      · exact loadNext_rule hconnected hnext hopen calls _ (hnext _ ht)
      · exact hnext _ ht

/-! ## Connections that are given up -/

/-- From `s` to `s'` no connection is new, the bounds are the same, and no item
has moved to another host. This is what every operation except `openConnection`
and a `start` with another number of connections does to a queue, so that the
bounds on the connections are kept by all of them for one reason. -/
structure Shrinks (s s' : State) : Prop where
  connections : s'._getAllConnections.Sublist s._getAllConnections
  numConnections : s'._numConnections = s._numConnections
  perHost : s'.maxConnectionsPerHost = s.maxConnectionsPerHost
  instances : s._instances ≤ s'._instances
  hostName : ∀ i < s._instances, (s'.item i).hostName = (s.item i).hostName
  items : (∀ i ∈ s._items, i < s._instances) → ∀ i ∈ s'._items, i < s'._instances

namespace Shrinks

theorem refl (s : State) : Shrinks s s :=
  ⟨List.Sublist.refl _, rfl, rfl, le_rfl, fun _ _ => rfl, id⟩

theorem trans (h : Shrinks s s') (h' : Shrinks s' t) : Shrinks s t where
  connections := h'.connections.trans h.connections
  numConnections := h'.numConnections.trans h.numConnections
  perHost := h'.perHost.trans h.perHost
  instances := h.instances.trans h'.instances
  hostName i hi := (h'.hostName i (Nat.lt_of_lt_of_le hi h.instances)).trans (h.hostName i hi)
  items hs := h'.items (h.items hs)

/-- Most operations leave all this alone and take away connections or items at
most. -/
theorem of_eq (hconn : s'._getAllConnections.Sublist s._getAllConnections)
    (hnum : s'._numConnections = s._numConnections)
    (hhost : s'.maxConnectionsPerHost = s.maxConnectionsPerHost)
    (hinst : s'._instances = s._instances) (hitem : s'.item = s.item)
    (hitems : s'._items ⊆ s._items) : Shrinks s s' where
  connections := hconn
  numConnections := hnum
  perHost := hhost
  instances := hinst.ge
  hostName i _ := by rw [hitem]
  items hs i hi := hinst ▸ hs i (hitems hi)

end Shrinks

theorem shrinks_setItem {item : LoadingItem} (h : item.hostName = (s.item i).hostName) :
    Shrinks s (s.setItem i item) := by
  refine ⟨List.Sublist.refl _, rfl, rfl, le_rfl, ?_, id⟩
  intro j _
  by_cases hj : j = i
  · rw [hj, setItem_self, h]
  · rw [setItem_of_ne hj]

theorem shrinks_load (i : ℕ) (s : State) : Shrinks s (s.load i) :=
  Shrinks.trans (@shrinks_setItem s i { s.item i with
      _isLoading := true, loader := some s.loaders.length } rfl)
    (Shrinks.of_eq (List.Sublist.refl _) rfl rfl rfl rfl (List.Subset.refl _))

theorem shrinks_close (i : ℕ) (s : State) : Shrinks s (s.close i) := by
  unfold State.close
  split
  · exact Shrinks.of_eq (List.Sublist.refl _) rfl rfl rfl rfl (List.Subset.refl _)
  · exact Shrinks.refl s

theorem shrinks_stop (i : ℕ) (s : State) : Shrinks s (s.stop i) := by
  unfold State.stop
  simp only
  split
  · exact shrinks_close i s
  · exact (shrinks_close i s).trans (shrinks_setItem rfl)

theorem shrinks_destroy (i : ℕ) (s : State) : Shrinks s (s.destroy i) :=
  ((shrinks_stop i s).trans (shrinks_close i _)).trans (shrinks_setItem rfl)

theorem shrinks_removeFromConnections (i : ℕ) (s : State) :
    Shrinks s (s._removeFromConnections i) := by
  refine Shrinks.of_eq ?_ rfl rfl rfl rfl (List.Subset.refl _)
  rw [getAllConnections_removeFromConnections]
  exact List.erase_sublist

theorem shrinks_connected (s : State) : Shrinks s s.connected :=
  Shrinks.of_eq (List.Sublist.refl _) rfl rfl rfl rfl (List.Subset.refl _)

theorem shrinks_getNextItemToLoad (s : State) : Shrinks s s._getNextItemToLoad.1 := by
  refine Shrinks.of_eq ?_ rfl rfl rfl rfl (List.Subset.refl _)
  unfold State._getNextItemToLoad State._getAllConnections
  cases s._connections with
  | none => exact List.Sublist.refl _
  | some connections => exact List.filter_sublist

theorem mem_sortItemsByPriority {j : ℕ} : j ∈ s.sortItemsByPriority._items ↔ j ∈ s._items :=
  (List.perm_insertionSort s.Before s._items).mem_iff

theorem shrinks_sortItemsByPriority (s : State) : Shrinks s s.sortItemsByPriority :=
  Shrinks.of_eq (List.Sublist.refl _) rfl rfl rfl rfl fun _ => mem_sortItemsByPriority.mp

theorem shrinks_incrementItemsLoaded (s : State) : Shrinks s s._incrementItemsLoaded :=
  Shrinks.of_eq (List.Sublist.refl _) rfl rfl rfl rfl (List.Subset.refl _)

theorem shrinks_nextIndex (s : State) : Shrinks s s.nextIndex :=
  Shrinks.of_eq (List.Sublist.refl _) rfl rfl rfl rfl (List.Subset.refl _)

/-- An item that is inserted has to have a number that was given out. -/
theorem shrinks_insert (hi : i < s._instances) : Shrinks s (s.insert i) := by
  have hpush : Shrinks s
      { s with _items := s._items ++ [i], _itemsTotal := s._itemsTotal + 1 } := by
    refine ⟨List.Sublist.refl _, rfl, rfl, le_rfl, fun _ _ => rfl, ?_⟩
    intro hs j hj
    obtain hj | hj := List.mem_append.mp hj
    · exact hs j hj
    · rw [List.mem_singleton.mp hj]
      exact hi
  exact (hpush.trans (shrinks_sortItemsByPriority _)).trans
    (Shrinks.of_eq (List.Sublist.refl _) rfl rfl rfl rfl (List.Subset.refl _))

theorem shrinks_pauseItem (i : ℕ) (s : State) : Shrinks s (s.pauseItem i) := by
  unfold State.pauseItem
  refine Shrinks.trans ?_ (shrinks_removeFromConnections i _)
  split
  · exact shrinks_stop i s
  · exact Shrinks.refl s

theorem shrinks_closeConnection (i : ℕ) (s : State) : Shrinks s (s.closeConnection i) := by
  refine ((shrinks_pauseItem i s).trans (shrinks_removeFromConnections i _)).trans
    (shrinks_setItem ?_)
  rfl

theorem shrinks_removeFromItems (i : ℕ) (s : State) : Shrinks s (s._removeFromItems i) := by
  unfold State._removeFromItems
  split
  · exact Shrinks.of_eq (List.Sublist.refl _) rfl rfl rfl rfl List.erase_subset
  · exact Shrinks.refl s

theorem shrinks_removeItem (i : ℕ) (s : State) : Shrinks s (s.removeItem i) :=
  ((shrinks_removeFromItems i s).trans (shrinks_removeFromConnections i _)).trans
    (shrinks_destroy i _)

theorem shrinks_checkAllDone (s : State) : Shrinks s s.checkAllDone := by
  unfold State.checkAllDone State._onAllLoaded
  split
  · split
    · exact Shrinks.refl s
    · exact Shrinks.of_eq (List.nil_sublist _) rfl rfl rfl rfl (List.Subset.refl _)
  · exact Shrinks.refl s

/-! ## The bounds -/

/-- There are no more connections in the array than allowed, at all and for
each host, and all of them are of items that there are. A bound for the hosts
that is negative allows none. -/
structure Bounded (s : State) : Prop where
  items : ∀ i ∈ s._items, i < s._instances
  connections : ∀ i ∈ s._getAllConnections, i < s._instances
  total : s._getNumConnections ≤ s._numConnections
  host : ∀ hostName, (s._getConnectionsForHostName hostName).length ≤
    max s.maxConnectionsPerHost 0

/-- The bounds are kept where connections are given up. For the connections to
a host this needs that no connected item has changed its host. -/
theorem Shrinks.bounded (h : Shrinks s s') (hs : Bounded s) : Bounded s' where
  items := h.items hs.items
  connections i hi :=
    Nat.lt_of_lt_of_le (hs.connections i (h.connections.mem hi)) h.instances
  total := by
    rw [h.numConnections]
    exact (Int.ofNat_le.mpr h.connections.length_le).trans hs.total
  host hostName := by
    have hsame : s'._getConnectionsForHostName hostName =
        s'._getAllConnections.filter fun i => (s.item i).hostName = hostName := by
      refine List.filter_congr ?_
      intro i hi
      rw [h.hostName i (hs.connections i (h.connections.mem hi))]
    rw [h.perHost, hsame]
    exact (Int.ofNat_le.mpr (h.connections.filter _).length_le).trans (hs.host hostName)

/-- The two conditions of `_canOpenConnectioForItem`, as inequalities. -/
theorem room_iff : s._canOpenConnectioForItem i = true ↔
    s._getNumConnections < s._numConnections ∧
      s._getNumConnectionsForItem i < s.maxConnectionsPerHost := by
  unfold State._canOpenConnectioForItem
  split
  · next hfull => exact iff_of_false Bool.false_ne_true fun h => absurd h.1 (Int.not_lt.mpr hfull)
  · next hroom =>
      split
      · next hfull =>
          exact iff_of_false Bool.false_ne_true fun h => absurd h.2 (Int.not_lt.mpr hfull)
      · next hhost => exact iff_of_true rfl ⟨Int.not_le.mp hroom, Int.not_le.mp hhost⟩

/-- There is one connection more, to the host of the item, and there was room
for it at all and at this host. The other hosts have the connections they had.
-/
theorem bounded_openConnection (h : Bounded s) (hconn : s._connections.isSome)
    (hi : i < s._instances) (hroom : s._canOpenConnectioForItem i = true) :
    Bounded (s.openConnection i) := by
  obtain ⟨hroom, hhost⟩ := room_iff.mp hroom
  have hpush : Bounded { s with _connections := s._connections.map (· ++ [i]) } := by
    have hall : ({ s with _connections := s._connections.map (· ++ [i]) } :
        State)._getAllConnections = s._getAllConnections ++ [i] :=
      getAllConnections_openConnection i hconn
    refine ⟨h.items, ?_, ?_, ?_⟩
    · intro j hj
      rw [hall] at hj
      obtain hj | hj := List.mem_append.mp hj
      · exact h.connections j hj
      · rw [List.mem_singleton.mp hj]
        exact hi
    · rw [_getNumConnections, hall, List.length_append, List.length_singleton, Int.natCast_succ]
      exact hroom
    · intro hostName
      rw [_getConnectionsForHostName, hall, List.filter_append, List.length_append]
      by_cases hname : (s.item i).hostName = hostName
      · have hone : ([i].filter fun j => (s.item j).hostName = hostName).length = 1 := by
          rw [List.filter_eq_self.mpr, List.length_singleton]
          intro j hj
          rw [List.mem_singleton.mp hj]
          exact decide_eq_true hname
        rw [← hname] at hone ⊢
        rw [hone, Int.natCast_succ]
        exact Int.le_trans hhost (Int.le_max_left _ _)
      · have hnone : ([i].filter fun j => (s.item j).hostName = hostName) = [] := by
          rw [List.filter_eq_nil_iff]
          intro j hj
          rw [List.mem_singleton.mp hj, decide_eq_true_eq]
          exact hname
        rw [hnone]
        exact h.host hostName
  exact (shrinks_load i _).bounded hpush

/-! ## Every call -/

/-- A property of the queue that is kept where connections are given up and
where one is opened. The lemmas below carry such a property through all calls,
and `bounded_run` is one use of them. -/
structure Kept (P : State → Prop) : Prop where
  shrinks : ∀ {s s' : State}, Shrinks s s' → P s → P s'
  fresh : ∀ {s : State}, P s → ∀ i ∈ s._items, i < s._instances
  opens : ∀ {s : State} {i : ℕ}, P s → s._connections.isSome → i < s._instances →
    s._canOpenConnectioForItem i = true → P (s.openConnection i)

/-- What each round of a loop over items keeps, the loop keeps. -/
theorem foldl_keeps {P : State → Prop} {f : State → ℕ → State} (items : List ℕ)
    (hf : ∀ s, ∀ i ∈ items, P s → P (f s i)) (h : P s) : P (items.foldl f s) := by
  induction items generalizing s with
  | nil => exact h
  | cons i items ih =>
      exact ih (fun t j hj => hf t j (List.mem_cons_of_mem i hj)) (hf s i List.mem_cons_self h)

theorem shrinks_addItem (item : LoadingItem) (s : State) : Shrinks s (s.addItem item) := by
  have hnew : Shrinks s ({ s with _instances := s._instances + 1 }.setItem s._instances item) := by
    refine ⟨List.Sublist.refl _, rfl, rfl, Nat.le_succ _, ?_, ?_⟩
    · intro j hj
      rw [setItem_of_ne (Nat.ne_of_lt hj)]
    · exact fun hs j hj => Nat.lt_succ_of_lt (hs j hj)
  exact hnew.trans (shrinks_insert (Nat.lt_succ_self _))

theorem shrinks_requeue (hi : i < s._instances) : Shrinks s (s.requeue i) := by
  have hremoved := (((shrinks_removeFromItems i s).trans
    (shrinks_removeFromConnections i _)).trans (shrinks_stop i _)).trans (shrinks_close i _)
  refine ((hremoved.trans (shrinks_setItem ?_)).trans (shrinks_nextIndex _)).trans
    (shrinks_insert ?_)
  · rfl
  · exact Nat.lt_of_lt_of_le hi hremoved.instances

theorem shrinks_remove (key : ℕ) (s : State) : Shrinks s (s.remove key) := by
  unfold State.remove
  split
  · exact (shrinks_removeItem key s).trans (shrinks_checkAllDone _)
  · exact Shrinks.refl s

theorem shrinks_onStartedHandler (i : ℕ) (s : State) : Shrinks s (s.onStartedHandler i) := by
  refine shrinks_setItem ?_
  rfl

namespace Kept

variable {P : State → Prop}

theorem loadNext (hP : Kept P) (toLoad : Option ℕ)
    (hnow : ∀ i, toLoad = some i → i < s._instances) (h : P s) : P (s._loadNext toLoad) := by
  have hconnected : ∀ s, P s → P s.connected := fun s => hP.shrinks (shrinks_connected s)
  have hnext : ∀ s, P s → P s._getNextItemToLoad.1 :=
    fun s => hP.shrinks (shrinks_getNextItemToLoad s)
  have hopen : ∀ s i, P s → s._connections.isSome → s._isFinished = false →
      Startable s i → P (s.openConnection i) :=
    fun s i hs hconn _ hi => hP.opens hs hconn (hP.fresh hs i hi.mem) hi.room
  unfold State._loadNext
  cases toLoad with
  | none => exact loadNext_rule hconnected hnext hopen _ _ h
  | some i =>
      refine loadNext_rule_some hconnected hnext hopen _ h ?_
      intro _ hroom
      exact hP.opens (hconnected s h) rfl (hnow i rfl) hroom

/-- For the calls that give something up and end with `_loadNext`. -/
theorem loads (hP : Kept P) (hs : Shrinks s s') (h : P s) : P (s'._loadNext none) :=
  hP.loadNext none nofun (hP.shrinks hs h)

theorem add {hostName : String} {priority : ℤ} {maxTries : ℕ} (hP : Kept P) (h : P s) :
    P (s.add hostName priority maxTries) := by
  have hshrinks := (shrinks_nextIndex s).trans (shrinks_addItem
    { hostName := hostName, _priority := priority, _additionIndex := s._additionIndex + 1,
      maxTries := maxTries, numTries := 0, status := none, _isLoaded := false,
      _isLoading := false, loader := none } s.nextIndex)
  unfold State.add
  simp only
  split
  · exact hP.shrinks hshrinks h
  · exact hP.loads hshrinks h

theorem start {withConnections : ℤ} (hP : Kept P)
    (hmore : withConnections > 0 → P { s with _numConnections := withConnections })
    (h : P s) : P (s.start withConnections) := by
  have hs : P (if withConnections > 0 then { s with _numConnections := withConnections }
      else s) := by
    split
    · next hpos => exact hmore hpos
    · exact h
  unfold State.start
  simp only
  generalize (if withConnections > 0 then { s with _numConnections := withConnections }
    else s) = t at hs
  split
  · exact hP.loads (Shrinks.refl t) hs
  · have hempty : Shrinks t { t with _connections := some [] } :=
      Shrinks.of_eq (List.nil_sublist _) rfl rfl rfl rfl (List.Subset.refl _)
    refine hP.shrinks ?_ (hP.loads hempty hs)
    exact Shrinks.of_eq (List.Sublist.refl _) rfl rfl rfl rfl (List.Subset.refl _)

theorem pause {loadsNext : Bool} (hP : Kept P) (h : P s) : P (s.pause key loadsNext) := by
  unfold State.pause
  split
  · simp only
    split
    · exact hP.loads (shrinks_pauseItem key s) h
    · exact hP.shrinks (shrinks_pauseItem key s) h
  · exact h

theorem pauseAll (hP : Kept P) (h : P s) : P s.pauseAll := by
  have hall := foldl_keeps (P := P) s._items
    (fun t i _ => hP.shrinks (shrinks_pauseItem i t)) h
  refine hP.shrinks ?_ hall
  exact Shrinks.of_eq (List.Sublist.refl _) rfl rfl rfl rfl (List.Subset.refl _)

theorem resume (hP : Kept P) (h : P s) : P (s.resume key) := by
  have hs : Shrinks s { s with _isPaused := false } :=
    Shrinks.of_eq (List.Sublist.refl _) rfl rfl rfl rfl (List.Subset.refl _)
  unfold State.resume
  simp only
  split
  · refine hP.loads (hs.trans (shrinks_setItem ?_)) h
    rfl
  · exact hP.shrinks hs h

theorem resumeAll (hP : Kept P) (h : P s) : P s.resumeAll := by
  refine hP.loadNext none nofun (foldl_keeps _ ?_ h)
  intro t i _ ht
  split
  · exact hP.resume ht
  · exact ht

theorem loadFirst (hP : Kept P) (hi : i < s._instances) (h : P s) : P (s.loadFirst i) := by
  refine hP.loadNext _ ?_ (hP.shrinks (shrinks_setItem ?_) h)
  · rintro _ ⟨⟩
    exact hi
  · rfl

theorem loadNow (hP : Kept P) (h : P s) (hstep : s.loadNow key least = some s') : P s' := by
  unfold State.loadNow at hstep
  split at hstep
  · next hkey =>
      have hconn := hP.shrinks (shrinks_connected s) h
      simp only at hstep
      split at hstep
      · obtain rfl := Option.some.inj hstep
        exact hconn
      · split at hstep
        · split at hstep
          · obtain rfl := Option.some.inj hstep
            have hclosed := shrinks_closeConnection least s.connected
            refine hP.loadFirst ?_ (hP.shrinks hclosed hconn)
            exact Nat.lt_of_lt_of_le (hP.fresh h key hkey) hclosed.instances
          · cases hstep
        · obtain rfl := Option.some.inj hstep
          exact hP.loadFirst (hP.fresh h key hkey) hconn
  · obtain rfl := Option.some.inj hstep
    exact h

theorem reload (hP : Kept P) (h : P s) (hstep : s.reload key least = some s') : P s' := by
  unfold State.reload at hstep
  split at hstep
  · next hkey =>
      exact hP.loadNow (hP.shrinks (shrinks_requeue (hP.fresh h key hkey)) h) hstep
  · obtain rfl := Option.some.inj hstep
    exact h

theorem removeAll (hP : Kept P) (h : P s) : P s.removeAll := by
  have hall := foldl_keeps (P := P) s._items
    (fun t i _ => hP.shrinks (shrinks_removeItem i t)) h
  refine hP.shrinks ?_ hall
  exact Shrinks.of_eq (List.nil_sublist _) rfl rfl rfl rfl (List.nil_subset _)

theorem removeWith (hP : Kept P) (status : Status) (h : P s) : P (s.removeWith status) :=
  hP.loadNext none nofun (foldl_keeps (P := P) _ (fun t i _ => hP.shrinks (shrinks_remove i t)) h)

theorem changeItemPriority {newPriority : ℤ} (hP : Kept P) (h : P s) :
    P (s.changeItemPriority key newPriority) := by
  unfold State.changeItemPriority
  split
  · refine hP.shrinks ((shrinks_setItem ?_).trans (shrinks_sortItemsByPriority _)) h
    rfl
  · exact h

theorem onSecurityErrorHandler (hP : Kept P) (h : P s) : P (s.onSecurityErrorHandler i) := by
  have hstatus : Shrinks s (s.setItem i { s.item i with status := some .STATUS_ERROR }) := by
    refine shrinks_setItem ?_
    rfl
  unfold State.onSecurityErrorHandler
  simp only
  split
  · refine hP.shrinks ?_ (hP.loads (hstatus.trans (shrinks_removeFromConnections i _)) h)
    exact Shrinks.of_eq (List.Sublist.refl _) rfl rfl rfl rfl (List.Subset.refl _)
  · exact hP.shrinks hstatus h

theorem onErrorHandler (hP : Kept P) (h : P s) : P (s.onErrorHandler i) := by
  have htries : Shrinks s (s.setItem i { s.item i with numTries := (s.item i).numTries + 1 }) := by
    refine shrinks_setItem ?_
    rfl
  unfold State.onErrorHandler
  simp only
  split
  · refine hP.shrinks ((htries.trans (shrinks_setItem ?_)).trans (shrinks_load i _)) h
    rfl
  · exact hP.onSecurityErrorHandler (hP.shrinks htries h)

theorem onCompleteHandler (hP : Kept P) (h : P s) : P (s.onCompleteHandler i) := by
  have hdone : Shrinks s (s.setItem i { s.item i with
      status := some .STATUS_FINISHED, _isLoaded := true }) := by
    refine shrinks_setItem ?_
    rfl
  unfold State.onCompleteHandler
  simp only
  split
  · exact hP.shrinks (shrinks_checkAllDone _) (hP.loads (((hdone.trans
      (shrinks_incrementItemsLoaded _)).trans (shrinks_removeFromConnections i _)).trans
      (shrinks_close i _)) h)
  · exact hP.shrinks hdone h

theorem hear {loader : ℕ} {done : Bool} {handler : ℕ → State → State} (hP : Kept P)
    (hhandler : ∀ i s, P s → P (handler i s)) (h : P s)
    (hstep : s.hear loader done handler = some s') : P s' := by
  unfold State.hear at hstep
  split at hstep
  · obtain ⟨i, -, rfl⟩ := Option.map_eq_some_iff.mp hstep
    refine hhandler i _ (hP.shrinks ?_ h)
    split <;> exact Shrinks.of_eq (List.Sublist.refl _) rfl rfl rfl rfl (List.Subset.refl _)
  · cases hstep

/-- A property of this kind is kept by every event. Only `start` can change the
number of connections, and has to keep the property with the new one. -/
theorem step {e : Event} (hP : Kept P)
    (hstart : ∀ withConnections, e = .start withConnections → withConnections > 0 →
      P { s with _numConnections := withConnections })
    (h : P s) (hstep : step s e = some s') : P s' := by
  cases e with
  | reload key least => exact hP.reload h hstep
  | loadNow key least => exact hP.loadNow h hstep
  | onStarted loader => exact hP.hear (fun i t => hP.shrinks (shrinks_onStartedHandler i t)) h hstep
  | onComplete loader => exact hP.hear (fun _ _ => hP.onCompleteHandler) h hstep
  | onError loader => exact hP.hear (fun _ _ => hP.onErrorHandler) h hstep
  | onSecurityError loader => exact hP.hear (fun _ _ => hP.onSecurityErrorHandler) h hstep
  | remove key =>
      obtain rfl := Option.some.inj hstep
      exact hP.shrinks (shrinks_remove key s) h
  | _ =>
      obtain rfl := Option.some.inj hstep
      first
        | exact hP.add h
        | exact hP.start (hstart _ rfl) h
        | exact hP.pause h
        | exact hP.pauseAll h
        | exact hP.resume h
        | exact hP.resumeAll h
        | exact hP.removeAll h
        | exact hP.removeWith _ h
        | exact hP.changeItemPriority h

end Kept

/-! ## Runs -/

theorem kept_bounded : Kept Bounded where
  shrinks := Shrinks.bounded
  fresh := Bounded.items
  opens := bounded_openConnection

/-- No later call of `start` asks for fewer connections than there may be at
the time. Connections that are open are not closed by such a call, so that they
would be too many at once. -/
def NotFewer (s : State) (e : Event) : Prop :=
  ∀ withConnections, e = .start withConnections → withConnections > 0 →
    s._numConnections ≤ withConnections

theorem bounded_new (numConnections maxConnectionsPerHost : ℤ) :
    Bounded (new numConnections maxConnectionsPerHost) := by
  refine ⟨nofun, nofun, ?_, fun _ => Int.le_max_right _ _⟩
  show (0 : ℤ) ≤ if numConnections > 0 then numConnections else 12
  split
  · next hpos => exact Int.le_of_lt hpos
  · exact Int.natCast_nonneg 12

/-- **The array of connections is bounded**, at all and for each host,
whatever is called and whatever happens, as long as no later call of
`start` asks for fewer of them. -/
theorem bounded_run {numConnections maxConnectionsPerHost : ℤ} {evs : List Event}
    (hrun : Runs.run step (new numConnections maxConnectionsPerHost) evs = some s)
    (hstart : Runs.EachStep step (fun s e _ => NotFewer s e)
      (new numConnections maxConnectionsPerHost) evs) : Bounded s := by
  refine Runs.run_each (fun _ s => Bounded s) (bounded_new _ _) ?_ hrun hstart
  intro _ t e u ht hstep hmore
  refine kept_bounded.step (fun withConnections he hpos => ?_) ht hstep
  exact ⟨ht.items, ht.connections, ht.total.trans (hmore withConnections he hpos), ht.host⟩

end BulkLoader

end Resources
