import Resources.BulkLoaderLive

/-!
# `BulkLoader` loads in order

The items are sorted as long as none is asked for at once: `loadNow` gives
its item the highest priority and leaves it where it is. Then an item
that gets a connection comes before every item that could have got it
(`loads_in_order`). An item could have got it when it was waiting and its
host had room at that moment, which is the moment before the connection is
opened. A step may open several connections, one after the other, so
`InTurn` looks at each of them with the ones that were open before it.

This is not so for `resumeAll`, which resumes one item after the other and
loads what it can after each.
-/

namespace Resources

namespace BulkLoader

open State

variable {s s' t t' : State} {i j key least loader : ℕ}

/-! ## The order of the items -/

/-- The items that are left are in the same order, and for the same reason:
neither their priorities nor the indices that break ties have changed. -/
structure Ranks (s s' : State) : Prop where
  items : s'._items.Sublist s._items
  priority : ∀ i, (s'.item i)._priority = (s.item i)._priority
  additionIndex : ∀ i, (s'.item i)._additionIndex = (s.item i)._additionIndex

namespace Ranks

theorem refl (s : State) : Ranks s s := ⟨List.Sublist.refl _, fun _ => rfl, fun _ => rfl⟩

theorem trans (h : Ranks s s') (h' : Ranks s' t) : Ranks s t where
  items := h'.items.trans h.items
  priority i := (h'.priority i).trans (h.priority i)
  additionIndex i := (h'.additionIndex i).trans (h.additionIndex i)

theorem of_eq (hitems : s'._items.Sublist s._items) (hitem : s'.item = s.item) : Ranks s s' :=
  ⟨hitems, fun i => by rw [hitem], fun i => by rw [hitem]⟩

theorem before (h : Ranks s s') : s'.Before i j ↔ s.Before i j := by
  unfold State.Before
  rw [h.priority, h.priority, h.additionIndex, h.additionIndex]

end Ranks

/-- The list is in the order in which items are to be loaded. -/
def Sorted (s : State) : Prop := s._items.Pairwise s.Before

/-- A list stays sorted when items are taken out of it and keep their ranks. -/
theorem Ranks.sorted (h : Ranks s s') (hsorted : Sorted s) : Sorted s' :=
  (List.Pairwise.sublist h.items hsorted).imp h.before.mpr

/-- Of two items one comes before the other, so that the list can be sorted at
all. -/
theorem before_total (s : State) (i j : ℕ) : s.Before i j ∨ s.Before j i := by
  unfold State.Before
  omega

theorem before_trans {k : ℕ} (h : s.Before i j) (h' : s.Before j k) : s.Before i k := by
  unfold State.Before at *
  omega

theorem sorted_sortItemsByPriority (s : State) : Sorted s.sortItemsByPriority := by
  have : Std.Total s.Before := ⟨before_total s⟩
  have : IsTrans ℕ s.Before := ⟨fun _ _ _ => before_trans⟩
  exact List.pairwise_insertionSort s.Before s._items

theorem sorted_insert (i : ℕ) (s : State) : Sorted (s.insert i) :=
  sorted_sortItemsByPriority { s with _items := s._items ++ [i], _itemsTotal := s._itemsTotal + 1 }

theorem ranks_setItem {item : LoadingItem} (hpriority : item._priority = (s.item i)._priority)
    (hindex : item._additionIndex = (s.item i)._additionIndex) : Ranks s (s.setItem i item) := by
  refine ⟨List.Sublist.refl _, fun j => ?_, fun j => ?_⟩
  · by_cases hj : j = i
    · rw [hj, setItem_self, hpriority]
    · rw [setItem_of_ne hj]
  · by_cases hj : j = i
    · rw [hj, setItem_self, hindex]
    · rw [setItem_of_ne hj]

theorem ranks_load (i : ℕ) (s : State) : Ranks s (s.load i) :=
  Ranks.trans (@ranks_setItem s i { s.item i with
      _isLoading := true, loader := some s.loaders.length } rfl rfl)
    (Ranks.of_eq (List.Sublist.refl _) rfl)

theorem ranks_close (i : ℕ) (s : State) : Ranks s (s.close i) := by
  unfold State.close
  split
  · exact Ranks.of_eq (List.Sublist.refl _) rfl
  · exact Ranks.refl s

theorem ranks_stop (i : ℕ) (s : State) : Ranks s (s.stop i) := by
  unfold State.stop
  simp only
  split
  · exact ranks_close i s
  · exact (ranks_close i s).trans (ranks_setItem rfl rfl)

theorem ranks_destroy (i : ℕ) (s : State) : Ranks s (s.destroy i) :=
  ((ranks_stop i s).trans (ranks_close i _)).trans (ranks_setItem rfl rfl)

theorem ranks_openConnection (i : ℕ) (s : State) : Ranks s (s.openConnection i) := by
  unfold State.openConnection
  refine Ranks.trans ?_ (ranks_load i _)
  exact Ranks.of_eq (List.Sublist.refl _) rfl

/-- Connections are opened without a change of the list. -/
theorem ranks_loadNext (s : State) : Ranks s (s._loadNext none) := by
  refine loadNext_rule ?_ ?_ ?_ _ s (Ranks.refl s)
  · exact fun t ht => ht.trans (Ranks.of_eq (List.Sublist.refl _) rfl)
  · exact fun t ht => ht.trans (Ranks.of_eq (List.Sublist.refl _) rfl)
  · exact fun t i ht _ _ _ => ht.trans (ranks_openConnection i t)

theorem ranks_removeFromConnections (i : ℕ) (s : State) : Ranks s (s._removeFromConnections i) :=
  Ranks.of_eq (List.Sublist.refl _) rfl

theorem ranks_pauseItem (i : ℕ) (s : State) : Ranks s (s.pauseItem i) := by
  unfold State.pauseItem
  refine Ranks.trans ?_ (ranks_removeFromConnections i _)
  split
  · exact ranks_stop i s
  · exact Ranks.refl s

theorem ranks_removeItem (i : ℕ) (s : State) : Ranks s (s.removeItem i) := by
  have hremoved : Ranks s ((s._removeFromItems i)._removeFromConnections i) := by
    unfold State._removeFromItems
    split
    · exact Ranks.of_eq List.erase_sublist rfl
    · exact Ranks.of_eq (List.Sublist.refl _) rfl
  exact hremoved.trans (ranks_destroy i _)

theorem ranks_checkAllDone (s : State) : Ranks s s.checkAllDone := by
  unfold State.checkAllDone State._onAllLoaded
  split
  · split
    · exact Ranks.refl s
    · exact Ranks.of_eq (List.Sublist.refl _) rfl
  · exact Ranks.refl s

theorem ranks_remove (key : ℕ) (s : State) : Ranks s (s.remove key) := by
  unfold State.remove
  split
  · exact (ranks_removeItem key s).trans (ranks_checkAllDone _)
  · exact Ranks.refl s

theorem ranks_resume (key : ℕ) (s : State) : Ranks s (s.resume key) := by
  have hs : Ranks s { s with _isPaused := false } := Ranks.of_eq (List.Sublist.refl _) rfl
  unfold State.resume
  simp only
  split
  · refine (hs.trans (ranks_setItem ?_ ?_)).trans (ranks_loadNext _)
    · rfl
    · rfl
  · exact hs

theorem ranks_resumeAll (s : State) : Ranks s s.resumeAll := by
  refine Ranks.trans ?_ (ranks_loadNext _)
  refine foldl_keeps (P := Ranks s) _ ?_ (Ranks.refl s)
  intro t i _ ht
  split
  · exact ht.trans (ranks_resume i t)
  · exact ht

/-! ## Who comes next -/

/-- The item may be loaded as soon as there is room for it. -/
structure Waits (s : State) (i : ℕ) : Prop where
  mem : i ∈ s._items
  notLoading : (s.item i)._isLoading = false
  notStopped : (s.item i).status ≠ some .STATUS_STOPPED

/-- The connections `conns` leave no room at the item's host. That there is no
connection left at all is another matter: it is the same for all items. -/
def HostFull (s : State) (conns : List ℕ) (i : ℕ) : Prop :=
  s.maxConnectionsPerHost ≤
    (conns.filter fun j => (s.item j).hostName = (s.item i).hostName).length

/-- The next item comes before all others that wait and have room at their
host. -/
theorem getNext_first (hsorted : Sorted s) (hnext : s._getNextItemToLoad.2 = some i)
    (hfst : s._getNextItemToLoad.1 = s) (hj : Waits s j) :
    s.Before i j ∨ HostFull s s._getAllConnections j := by
  have hstart := getNext_startable hnext
  have hfind : s._getNextItemToLoad.1._items.find? (fun i =>
      !(s._getNextItemToLoad.1.item i)._isLoading &&
        (s._getNextItemToLoad.1.item i).status != some .STATUS_STOPPED &&
        s._getNextItemToLoad.1._canOpenConnectioForItem i) = some i := hnext
  rw [hfst] at hstart hfind
  obtain ⟨-, skipped, rest, hitems, hskipped⟩ := List.find?_eq_some_iff_append.mp hfind
  have hmem := hj.mem
  rw [hitems, List.mem_append] at hmem
  rcases hmem with hmem | hmem
  · -- what was passed over has no room, but there is room for a connection
    have hnot := hskipped j hmem
    rw [hj.notLoading, bne_iff_ne.mpr hj.notStopped, Bool.not_false, Bool.true_and,
      Bool.true_and, Bool.not_eq_true', ← Bool.not_eq_true, room_iff, not_and_or] at hnot
    rcases hnot with hfull | hfull
    · exact absurd (room_iff.mp hstart.room).1 hfull
    · exact Or.inr (Int.not_lt.mp hfull)
  · rcases List.mem_cons.mp hmem with rfl | hrest
    · exact Or.inl (or_self_iff.mp (before_total s j j))
    · unfold Sorted at hsorted
      rw [hitems] at hsorted
      have htail := (List.pairwise_append.mp hsorted).2.1
      exact Or.inl ((List.pairwise_cons.mp htail).1 j hrest)

/-- Every item `i` that has got a connection was the next one. The
connections are in the order in which they were opened, so `pre` are those
that were open when `i` got its own. Any item `j` that waits even now, or
that has got its connection after `i`, comes after `i`, or its host had no
room beside `pre`. -/
def InTurn (s s' : State) : Prop :=
  ∀ pre i post, s'._getAllConnections = pre ++ i :: post → i ∉ s._getAllConnections →
    ∀ j, Waits s' j ∨ j ∈ post → s'.Before i j ∨ HostFull s' pre j

theorem InTurn.of_subset (h : s'._getAllConnections ⊆ s._getAllConnections) : InTurn s s' := by
  intro pre i post heq hnot
  refine absurd (h ?_) hnot
  rw [heq]
  exact List.mem_append_right _ List.mem_cons_self

theorem inTurn_connected (h : InTurn s t) : InTurn s t.connected := by
  intro pre i post heq hnot j hj
  exact h pre i post heq hnot j (hj.imp_left fun hw => ⟨hw.mem, hw.notLoading, hw.notStopped⟩)

/-- A place in a list that has got one more member: the last place, or one
of those before. -/
theorem append_cons_eq_concat {pre post conns : List ℕ} (h : conns ++ [key] = pre ++ i :: post) :
    (pre = conns ∧ i = key ∧ post = []) ∨
      ∃ post', post = post' ++ [key] ∧ conns = pre ++ i :: post' := by
  rcases List.eq_nil_or_concat' post with rfl | ⟨post', k, rfl⟩
  · obtain ⟨hconns, hkey⟩ := List.append_inj' h rfl
    exact Or.inl ⟨hconns.symm, (List.singleton_inj.mp hkey).symm, rfl⟩
  · rw [← List.cons_append, ← List.append_assoc] at h
    obtain ⟨hconns, hkey⟩ := List.append_inj' h rfl
    obtain rfl := List.singleton_inj.mp hkey
    exact Or.inr ⟨post', rfl, hconns⟩

/-- What waits after a connection has been opened waited before. -/
theorem waits_openConnection {j : ℕ} (hj : Waits (t.openConnection key) j) : Waits t j := by
  have hne : j ≠ key := by
    rintro rfl
    have hself : (t.openConnection j).item j = { t.item j with
        _isLoading := true, loader := some t.loaders.length } := setItem_self j _ _
    exact Bool.false_ne_true (hj.notLoading.symm.trans (congrArg _ hself))
  have hother : (t.openConnection key).item j = t.item j := setItem_of_ne hne _ _
  exact ⟨hj.mem, hother ▸ hj.notLoading, hother ▸ hj.notStopped⟩

/-- The hosts of the items are the same when a connection has been opened. -/
theorem hostFull_openConnection (pre : List ℕ) {j : ℕ} (hj : HostFull t pre j) :
    HostFull (t.openConnection key) pre j := by
  have hname : ∀ i, ((t.openConnection key).item i).hostName = (t.item i).hostName := by
    intro i
    by_cases hi : i = key
    · have hself : (t.openConnection key).item key = { t.item key with
          _isLoading := true, loader := some t.loaders.length } := setItem_self key _ _
      rw [hi, hself]
    · have hother : (t.openConnection key).item i = t.item i := setItem_of_ne hi _ _
      rw [hother]
  unfold HostFull
  simp only [hname]
  exact hj

/-- The next connection is in turn. `getNext_first` says so against the items
that wait, and nothing has to be shown of the connections that were opened
before it, except that the new one comes after them. -/
theorem inTurn_openConnection (h : Live t) (hsorted : Sorted t) (hturn : InTurn s t)
    (hconn : t._connections.isSome) (hnext : t._getNextItemToLoad.2 = some key) :
    InTurn s (t.openConnection key) := by
  have hranks := ranks_openConnection key t
  have hall := getAllConnections_openConnection key hconn
  -- the item that is opened was itself waiting until now
  have hkey : Waits t key := by
    have hstart := getNext_startable hnext
    rw [getNextItemToLoad_fst h] at hstart
    exact ⟨hstart.mem, hstart.notLoading, hstart.notStopped⟩
  intro pre k post heq hnew j hj
  rw [hranks.before]
  refine Or.imp_right (hostFull_openConnection pre) ?_
  rw [hall] at heq
  rcases append_cons_eq_concat heq with ⟨rfl, rfl, rfl⟩ | ⟨post', rfl, hconns⟩
  · have hj := hj.resolve_right List.not_mem_nil
    exact getNext_first hsorted hnext (getNextItemToLoad_fst h) (waits_openConnection hj)
  · refine hturn pre k post' hconns hnew j ?_
    rcases hj with hj | hj
    · exact Or.inl (waits_openConnection hj)
    · rcases List.mem_append.mp hj with hj | hj
      · exact Or.inr hj
      · rw [List.mem_singleton.mp hj]
        exact Or.inl hkey

/-- Every connection that the loop opens is in turn, by induction on the number
of calls. -/
theorem inTurn_loop (calls : ℕ) : ∀ t : State, Live t → Sorted t → InTurn s t →
    InTurn s (loadNext calls none t) := by
  induction calls with
  | zero => exact fun t _ _ hturn => hturn
  | succ calls ih =>
      intro t h hsorted hturn
      cases hfinished : t._isFinished with
      | true =>
          rw [loadNext, if_pos hfinished]
          exact hturn
      | false =>
          have hconn := live_connected h
          have hturn := inTurn_connected hturn
          have hranks : Ranks t t.connected := Ranks.of_eq (List.Sublist.refl _) rfl
          rw [loadNext_none calls hfinished, getNextItemToLoad_fst hconn]
          split
          · exact hturn
          · next i hi =>
              have hstart := getNext_startable hi
              rw [getNextItemToLoad_fst hconn] at hstart
              have hlive := live_openConnection hconn rfl hstart.mem hstart.notLoading
              have hopen : InTurn s (t.connected.openConnection i) :=
                inTurn_openConnection hconn hsorted hturn rfl hi
              unfold loadMore
              rw [getNextItemToLoad_fst hlive]
              split
              · exact ih _ hlive ((hranks.trans (ranks_openConnection i _)).sorted hsorted) hopen
              · exact hopen

/-! ## Every call -/

/-- From `s` to `s'` connections are given up at most, and no item changes its
place. -/
structure Gives (s s' : State) : Prop where
  ranks : Ranks s s'
  shrinks : Shrinks s s'

theorem Gives.refl (s : State) : Gives s s := ⟨Ranks.refl s, Shrinks.refl s⟩

theorem Gives.trans (h : Gives s s') (h' : Gives s' t) : Gives s t :=
  ⟨h.ranks.trans h'.ranks, h.shrinks.trans h'.shrinks⟩

theorem gives_setItem {item : LoadingItem} (hname : item.hostName = (s.item i).hostName)
    (hpriority : item._priority = (s.item i)._priority)
    (hindex : item._additionIndex = (s.item i)._additionIndex) : Gives s (s.setItem i item) :=
  ⟨ranks_setItem hpriority hindex, shrinks_setItem hname⟩

theorem gives_status (i : ℕ) (status : Option Status) (s : State) :
    Gives s (s.setItem i { s.item i with status := status }) :=
  gives_setItem rfl rfl rfl

theorem gives_close (i : ℕ) (s : State) : Gives s (s.close i) :=
  ⟨ranks_close i s, shrinks_close i s⟩

theorem gives_removeFromConnections (i : ℕ) (s : State) : Gives s (s._removeFromConnections i) :=
  ⟨ranks_removeFromConnections i s, shrinks_removeFromConnections i s⟩

theorem gives_pauseItem (i : ℕ) (s : State) : Gives s (s.pauseItem i) :=
  ⟨ranks_pauseItem i s, shrinks_pauseItem i s⟩

theorem gives_remove (key : ℕ) (s : State) : Gives s (s.remove key) :=
  ⟨ranks_remove key s, shrinks_remove key s⟩

/-- The items are sorted after a step from `s`, and what was loaded in it was
loaded in turn. -/
structure Turn (s s' : State) : Prop where
  sorted : Sorted s'
  inTurn : InTurn s s'

theorem Turn.of_eq (h : Turn s t) (hitem : t'.item = t.item) (hitems : t'._items = t._items)
    (hconn : t'._connections = t._connections)
    (hhost : t'.maxConnectionsPerHost = t.maxConnectionsPerHost) : Turn s t' := by
  cases t
  cases t'
  simp only at hitem hitems hconn hhost
  subst hitem hitems hconn hhost
  refine ⟨h.sorted, fun pre i post heq hnot j hj => h.inTurn pre i post heq hnot j ?_⟩
  exact hj.imp_left fun hw => ⟨hw.mem, hw.notLoading, hw.notStopped⟩

theorem Gives.turn (h : Gives s t) (hsorted : Sorted s) : Turn s t :=
  ⟨h.ranks.sorted hsorted, InTurn.of_subset h.shrinks.connections.subset⟩

/-- For the calls that end with `_loadNext`: what they do before that has given
up connections or has sorted the list anew. -/
theorem turn_loadNext (h : Live t) (hturn : Turn s t) : Turn s (t._loadNext none) :=
  ⟨(ranks_loadNext t).sorted hturn.sorted, inTurn_loop _ t h hturn.sorted hturn.inTurn⟩

theorem turn_checkAllDone (h : Turn s t) : Turn s t.checkAllDone := by
  refine ⟨(ranks_checkAllDone t).sorted h.sorted, ?_⟩
  unfold State.checkAllDone State._onAllLoaded
  split
  · split
    · exact h.inTurn
    · exact InTurn.of_subset (List.nil_subset _)
  · exact h.inTurn

theorem turn_add {hostName : String} {priority : ℤ} {maxTries : ℕ} (h : Live s) :
    Turn s (s.add hostName priority maxTries) := by
  have hshrinks := (shrinks_nextIndex s).trans (shrinks_addItem
    { hostName := hostName, _priority := priority, _additionIndex := s._additionIndex + 1,
      maxTries := maxTries, numTries := 0, status := none, _isLoaded := false,
      _isLoading := false, loader := none } s.nextIndex)
  have hnew : Turn s _ := ⟨sorted_insert _ _, InTurn.of_subset hshrinks.connections.subset⟩
  unfold State.add
  simp only
  split
  · exact hnew
  · exact turn_loadNext (live_addNew h) hnew

theorem turn_start {withConnections : ℤ} (h : Live s) (hsorted : Sorted s) :
    Turn s (s.start withConnections) := by
  have hs : Live (if withConnections > 0 then { s with _numConnections := withConnections }
      else s) := live_withConnections h
  have hturn : Turn s (if withConnections > 0 then { s with _numConnections := withConnections }
      else s) := by
    split <;> exact ⟨hsorted, InTurn.of_subset (List.Subset.refl _)⟩
  unfold State.start
  simp only
  generalize (if withConnections > 0 then { s with _numConnections := withConnections }
    else s) = t at hs hturn
  split
  · exact turn_loadNext hs hturn
  · next hnone =>
      have hempty := live_noConnections hs (Option.not_isSome_iff_eq_none.mp hnone)
      have hnothing : Turn s { t with _connections := some [] } :=
        ⟨hturn.sorted, InTurn.of_subset (List.nil_subset _)⟩
      exact (turn_loadNext hempty hnothing).of_eq rfl rfl rfl rfl

theorem turn_pause {loadsNext : Bool} (h : Live s) (hsorted : Sorted s) :
    Turn s (s.pause key loadsNext) := by
  unfold State.pause
  split
  · next hkey =>
      have hpaused := (gives_pauseItem key s).turn hsorted
      simp only
      split
      · exact turn_loadNext (live_pauseItem h hkey) hpaused
      · exact hpaused
  · exact (Gives.refl s).turn hsorted

theorem turn_pauseAll (hsorted : Sorted s) : Turn s s.pauseAll := by
  have hall : Gives s (s._items.foldl (fun s i => s.pauseItem i) s) :=
    foldl_keeps (P := Gives s) _ (fun t i _ ht => ht.trans (gives_pauseItem i t)) (Gives.refl s)
  exact (hall.turn hsorted).of_eq rfl rfl rfl rfl

theorem turn_resume (h : Live s) (hsorted : Sorted s) : Turn s (s.resume key) := by
  have hs : Gives s { s with _isPaused := false } :=
    ⟨Ranks.of_eq (List.Sublist.refl _) rfl,
      Shrinks.of_eq (List.Sublist.refl _) rfl rfl rfl rfl (List.Subset.refl _)⟩
  unfold State.resume
  simp only
  split
  · next hkey =>
      refine turn_loadNext (live_resumeItem h hkey.2) (Gives.turn ?_ hsorted)
      exact hs.trans (gives_status key none _)
  · exact hs.turn hsorted

theorem turn_removeAll (s : State) : Turn s s.removeAll :=
  ⟨List.Pairwise.nil, InTurn.of_subset (List.nil_subset _)⟩

theorem turn_removeWith (status : Status) (h : Live s) (hsorted : Sorted s) :
    Turn s (s.removeWith status) := by
  have hall : ∀ items : List ℕ, Gives s (items.foldl (fun s i => s.remove i) s) := fun items =>
    foldl_keeps (P := Gives s) _ (fun t i _ ht => ht.trans (gives_remove i t)) (Gives.refl s)
  exact turn_loadNext (foldl_remove _ h) ((hall _).turn hsorted)

theorem turn_changeItemPriority {newPriority : ℤ} (hsorted : Sorted s) :
    Turn s (s.changeItemPriority key newPriority) := by
  unfold State.changeItemPriority
  split
  · exact ⟨sorted_sortItemsByPriority _, InTurn.of_subset (List.Subset.refl _)⟩
  · exact (Gives.refl s).turn hsorted

/-! ## What happens to a loader -/

theorem turn_onStartedHandler (hsorted : Sorted s) : Turn s (s.onStartedHandler i) :=
  (gives_status i (some .STATUS_STARTED) s).turn hsorted

theorem turn_onCompleteHandler (hsorted : Sorted s) (hgives : Gives s t) (h : Without i t)
    (hloading : (t.item i)._isLoading = true) : Turn s (t.onCompleteHandler i) := by
  have hdone : Gives s (t.setItem i { t.item i with
      status := some .STATUS_FINISHED, _isLoaded := true }) := by
    refine hgives.trans (gives_setItem ?_ ?_ ?_)
    · rfl
    · rfl
    · rfl
  unfold State.onCompleteHandler
  simp only
  split
  · refine turn_checkAllDone (turn_loadNext (live_loaded h hloading) (Gives.turn ?_ hsorted))
    refine ((hdone.trans ?_).trans (gives_removeFromConnections i _)).trans (gives_close i _)
    exact ⟨Ranks.of_eq (List.Sublist.refl _) rfl, shrinks_incrementItemsLoaded _⟩
  · exact hdone.turn hsorted

theorem turn_onSecurityErrorHandler (hsorted : Sorted s) (hgives : Gives s t) (h : Without i t)
    (hloading : (t.item i)._isLoading = true) (hloaded : (t.item i)._isLoaded = false) :
    Turn s (t.onSecurityErrorHandler i) := by
  have hfailed : Gives s (t.setItem i { t.item i with status := some .STATUS_ERROR }) :=
    hgives.trans (gives_status i _ t)
  unfold State.onSecurityErrorHandler
  simp only
  split
  · refine Turn.of_eq (turn_loadNext (live_failed h hloading hloaded) (Gives.turn ?_ hsorted))
      rfl rfl rfl rfl
    exact hfailed.trans (gives_removeFromConnections i _)
  · exact hfailed.turn hsorted

theorem turn_onErrorHandler (hsorted : Sorted s) (hgives : Gives s t) (h : Without i t)
    (hloading : (t.item i)._isLoading = true) (hloaded : (t.item i)._isLoaded = false) :
    Turn s (t.onErrorHandler i) := by
  have htried : Gives s (t.setItem i { t.item i with numTries := (t.item i).numTries + 1 }) := by
    refine hgives.trans (gives_setItem ?_ ?_ ?_)
    · rfl
    · rfl
    · rfl
  unfold State.onErrorHandler
  simp only
  split
  · -- it is tried again on its connection
    exact Gives.turn ((htried.trans (gives_status i none _)).trans
      ⟨ranks_load i _, shrinks_load i _⟩) hsorted
  · refine turn_onSecurityErrorHandler hsorted htried (h.setItem fun loader => h.own i loader) ?_ ?_
    · rw [setItem_self]
      exact hloading
    · rw [setItem_self]
      exact hloaded

theorem turn_hear {done : Bool} {handler : ℕ → State → State}
    (hhandler : ∀ i, i ∈ s._getAllConnections → loader ∈ s.listeners →
      s.loaders[loader]? = some i →
      Turn s (handler i (if done then { s with listeners := s.listeners.erase loader } else s)))
    (h : Live s) (hstep : s.hear loader done handler = some s') : Turn s s' := by
  unfold State.hear at hstep
  split at hstep
  · next hl =>
      obtain ⟨i, hi, rfl⟩ := Option.map_eq_some_iff.mp hstep
      exact hhandler i (h.item_of hl hi).1 hl hi
  · cases hstep

/-! ## Runs -/

/-- The event asks for no item at once. `loadNow` and `reload` make an item as
urgent as any other one without sorting the list, so that the list need not be
sorted after them. -/
def Queued : Event → Prop
  | .reload _ _ | .loadNow _ _ => False
  | _ => True

/-- The step lemma for the order of loading. `resumeAll` is left out because it
resumes and loads one item after the other, so that the first one is loaded
before it has resumed the second. -/
theorem turn_step {e : Event} (h : Live s) (hsorted : Sorted s) (hqueued : Queued e)
    (hresume : e ≠ .resumeAll) (hstep : step s e = some s') : Turn s s' := by
  have hloading : ∀ i ∈ s._getAllConnections,
      (s.item i)._isLoading = true ∧ (s.item i)._isLoaded = false := by
    intro i hi
    obtain ⟨hloading, hloaded, -⟩ := (h.phase i (h.connected i hi)).connected.mp hi
    exact ⟨hloading, hloaded⟩
  have hheard : ∀ loader, Gives s { s with listeners := s.listeners.erase loader } := fun _ =>
    ⟨Ranks.of_eq (List.Sublist.refl _) rfl,
      Shrinks.of_eq (List.Sublist.refl _) rfl rfl rfl rfl (List.Subset.refl _)⟩
  cases e with
  | reload key least => exact hqueued.elim
  | loadNow key least => exact hqueued.elim
  | resumeAll => exact absurd rfl hresume
  | onStarted loader =>
      exact turn_hear (fun i _ _ _ => turn_onStartedHandler hsorted) h hstep
  | onComplete loader =>
      refine turn_hear (fun i hi hl hown => ?_) h hstep
      exact turn_onCompleteHandler hsorted (hheard _) (h.without_hear hl hown) (hloading i hi).1
  | onError loader =>
      refine turn_hear (fun i hi hl hown => ?_) h hstep
      exact turn_onErrorHandler hsorted (hheard _) (h.without_hear hl hown) (hloading i hi).1
        (hloading i hi).2
  | onSecurityError loader =>
      refine turn_hear (fun i hi hl hown => ?_) h hstep
      exact turn_onSecurityErrorHandler hsorted (hheard _) (h.without_hear hl hown)
        (hloading i hi).1 (hloading i hi).2
  | remove key =>
      obtain rfl := Option.some.inj hstep
      exact (gives_remove key s).turn hsorted
  | _ =>
      obtain rfl := Option.some.inj hstep
      first
        | exact turn_add h
        | exact turn_start h hsorted
        | exact turn_pause h hsorted
        | exact turn_pauseAll hsorted
        | exact turn_resume h hsorted
        | exact turn_removeAll s
        | exact turn_removeWith _ h hsorted
        | exact turn_changeItemPriority hsorted

/-- The list is sorted after every event that asks for no item at once,
`resumeAll` among them. -/
theorem sorted_step {e : Event} (h : Live s) (hsorted : Sorted s) (hqueued : Queued e)
    (hstep : step s e = some s') : Sorted s' := by
  by_cases hresume : e = .resumeAll
  · rw [hresume] at hstep
    obtain rfl := Option.some.inj hstep
    exact (ranks_resumeAll s).sorted hsorted
  · exact (turn_step h hsorted hqueued hresume hstep).sorted

theorem sorted_run {numConnections maxConnectionsPerHost : ℤ} {evs : List Event}
    (hrun : Runs.run step (new numConnections maxConnectionsPerHost) evs = some s)
    (hqueued : ∀ e ∈ evs, Queued e) : Live s ∧ Sorted s := by
  refine Runs.run_each (fun _ s => Live s ∧ Sorted s) ⟨live_new _ _, List.Pairwise.nil⟩ ?_ hrun
    ((Runs.eachStep_event hrun).mpr hqueued)
  rintro _ t e u ⟨ht, hsorted⟩ hstep he
  refine ⟨live_step ht ?_ hstep, sorted_step ht hsorted he hstep⟩
  cases e with
  | reload key least => exact he.elim
  | loadNow key least => exact he.elim
  | _ => trivial

/-- **Items are loaded in order**, as long as none is asked for at once: they
are sorted, and an item that gets a connection comes before every item
that waits or is loaded after it, unless the connections that were open
before already filled the host of the other. -/
theorem loads_in_order {numConnections maxConnectionsPerHost : ℤ} {evs : List Event}
    (hrun : Runs.run step (new numConnections maxConnectionsPerHost) evs = some s)
    (hqueued : ∀ e ∈ evs, Queued e) :
    s._items.Pairwise s.Before ∧
      Runs.EachStep step (fun s e s' => e ≠ .resumeAll → InTurn s s')
        (new numConnections maxConnectionsPerHost) evs := by
  refine ⟨(sorted_run hrun hqueued).2, ?_⟩
  rintro pre e post rfl t u ht hu hresume
  obtain ⟨hlive, hsorted⟩ := sorted_run ht fun f hf => hqueued f (List.mem_append_left _ hf)
  have he : Queued e := hqueued e (List.mem_append_right _ List.mem_cons_self)
  exact (turn_step hlive hsorted he hresume hu).inTurn

/-- Two connections, one for each host: the second item is the most urgent
one, and leaves no room for the other two at its host until it is done. -/
theorem loads_in_order_four : ∃ s, Runs.run step (new 2 1)
      [.add "h" 0 3, .add "h" 3 3, .add "g" 1 3, .add "h" 2 3, .start (-1), .onComplete 0]
        = some s ∧
    s._getAllConnections = [2, 3] ∧ s._items = [1, 3, 2, 0] ∧ s._items.Pairwise s.Before ∧
    Runs.EachStep step (fun s e s' => e ≠ .resumeAll → InTurn s s') (new 2 1)
      [.add "h" 0 3, .add "h" 3 3, .add "g" 1 3, .add "h" 2 3, .start (-1), .onComplete 0] := by
  refine ⟨_, rfl, rfl, rfl, @loads_in_order _ 2 1 [.add "h" 0 3, .add "h" 3 3, .add "g" 1 3,
    .add "h" 2 3, .start (-1), .onComplete 0] rfl ?_⟩
  simp [Queued]

/-- `resumeAll` loads the last item before it comes to the second. -/
example : (Runs.run step (new 2 2) [.add "h" 2 3, .add "h" 1 3, .add "h" 0 3, .pause 0 false,
    .pause 1 false, .resumeAll]).map (·._getAllConnections) = some [0, 2] := rfl

end BulkLoader

end Resources
