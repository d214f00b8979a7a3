import Mathlib.Data.List.Count
import Resources.BulkLoaderLive

/-!
# What `BulkLoader` counts

The numbers of items and of items that have loaded are right, and the
queue is finished just when all have loaded, which it has then announced
(`counts_loaded`).
-/

namespace CountOne

variable {α : Type*} [DecidableEq α] {a : α} {l : List α} {p q : α → Bool}

/-- What is counted in a list, taken apart at one element of it. -/
theorem countP_erase (h : a ∈ l) :
    l.countP p = (l.erase a).countP p + if p a then 1 else 0 := by
  rw [(List.perm_cons_erase h).countP_eq, List.countP_cons]

/-- One element of the list that was not counted is counted now, and nothing
changes for the others. -/
theorem countP_set (hnodup : l.Nodup) (h : a ∈ l) (hpq : ∀ b, b ≠ a → q b = p b)
    (hp : p a = false) (hq : q a = true) : l.countP q = l.countP p + 1 := by
  have hrest : (l.erase a).countP q = (l.erase a).countP p := by
    refine List.countP_congr ?_
    intro b hb
    rw [hpq b (hnodup.mem_erase_iff.mp hb).1]
  rw [countP_erase h, countP_erase (p := p) h, hrest, hp, hq]
  rfl

end CountOne

namespace Resources

namespace BulkLoader

open State

variable {s s' t : State} {i j key least loader : ℕ} {told : List Out}

/-! ## The invariant -/

/-- The counts are right, and so is the flag. `told` is what the queue had
said at some earlier moment at which it was not finished: if it is finished
now, it has said so since. -/
structure Tally (told : List Out) (s : State) : Prop where
  total : s._itemsTotal = s._items.length
  loaded : s._itemsLoaded = s._items.countP fun i => (s.item i)._isLoaded
  finished : s._isFinished = true → ∀ i ∈ s._items, (s.item i)._isLoaded = true
  announced : ∃ since, s.out = told ++ since ∧ (s._isFinished = true → Out.COMPLETE ∈ since)

/-- A queue with items in it that have all loaded is finished. With `Tally`,
which says that a finished queue has loaded all, this makes the flag exact. -/
def Noticed (s : State) : Prop :=
  s._items ≠ [] → (∀ i ∈ s._items, (s.item i)._isLoaded = true) → s._isFinished = true

/-- From `s` to `s'` no item has loaded, come or gone, and what the queue has
said is still said. Most operations do no more than this to the counts, and
keep both `Tally` and `Noticed` for that reason alone. -/
structure Same (s s' : State) : Prop where
  items : s'._items.Perm s._items
  flags : ∀ i, (s'.item i)._isLoaded = (s.item i)._isLoaded
  total : s'._itemsTotal = s._itemsTotal
  loaded : s'._itemsLoaded = s._itemsLoaded
  finished : s'._isFinished = s._isFinished
  out : s.out <+: s'.out

namespace Same

theorem refl (s : State) : Same s s :=
  ⟨List.Perm.refl _, fun _ => rfl, rfl, rfl, rfl, List.prefix_rfl⟩

theorem trans (h : Same s s') (h' : Same s' t) : Same s t where
  items := h'.items.trans h.items
  flags i := (h'.flags i).trans (h.flags i)
  total := h'.total.trans h.total
  loaded := h'.loaded.trans h.loaded
  finished := h'.finished.trans h.finished
  out := h.out.trans h'.out

theorem tally (h : Same s s') (hs : Tally told s) : Tally told s' where
  total := by rw [h.total, hs.total, h.items.length_eq]
  loaded := by
    rw [h.loaded, hs.loaded, h.items.countP_eq]
    refine congrArg _ (List.countP_congr ?_)
    intro i _
    rw [h.flags i]
  finished hdone i hi := by
    rw [h.flags i]
    exact hs.finished (h.finished ▸ hdone) i (h.items.mem_iff.mp hi)
  announced := by
    obtain ⟨since, hsince, hcomplete⟩ := hs.announced
    obtain ⟨more, hmore⟩ := h.out
    refine ⟨since ++ more, ?_, ?_⟩
    · rw [← hmore, hsince, List.append_assoc]
    · exact fun hdone => List.mem_append_left _ (hcomplete (h.finished ▸ hdone))

theorem noticed (h : Same s s') (hs : Noticed s) : Noticed s' := by
  intro hne hall
  rw [h.finished]
  refine hs (fun hnil => hne ?_) fun i hi => ?_
  · exact List.perm_nil.mp (hnil ▸ h.items)
  · rw [← h.flags i]
    exact hall i (h.items.mem_iff.mpr hi)

/-- An item changes, but whether it has loaded does not change. -/
theorem setItem {item : LoadingItem} (h : item._isLoaded = (s.item i)._isLoaded) :
    Same s (s.setItem i item) := by
  refine ⟨List.Perm.refl _, ?_, rfl, rfl, rfl, List.prefix_rfl⟩
  intro j
  by_cases hj : j = i
  · rw [hj, setItem_self, h]
  · rw [setItem_of_ne hj]

/-- The list may be sorted anew, and the queue may say something. -/
theorem of_eq (hitem : s'.item = s.item) (hitems : s'._items.Perm s._items)
    (htotal : s'._itemsTotal = s._itemsTotal) (hloaded : s'._itemsLoaded = s._itemsLoaded)
    (hfinished : s'._isFinished = s._isFinished) (hout : s.out <+: s'.out) : Same s s' :=
  ⟨hitems, fun i => by rw [hitem], htotal, hloaded, hfinished, hout⟩

end Same

theorem same_close (i : ℕ) (s : State) : Same s (s.close i) := by
  rw [close_eq]
  exact Same.of_eq rfl (List.Perm.refl _) rfl rfl rfl (List.prefix_rfl)

theorem same_stop (i : ℕ) (s : State) : Same s (s.stop i) := by
  unfold State.stop
  simp only
  split
  · exact same_close i s
  · refine (same_close i s).trans (Same.setItem ?_)
    rfl

theorem same_removeFromConnections (i : ℕ) (s : State) : Same s (s._removeFromConnections i) :=
  Same.of_eq rfl (List.Perm.refl _) rfl rfl rfl (List.prefix_rfl)

theorem same_pauseItem (i : ℕ) (s : State) : Same s (s.pauseItem i) := by
  unfold State.pauseItem
  refine Same.trans ?_ (same_removeFromConnections i _)
  split
  · exact same_stop i s
  · exact Same.refl s

theorem same_load (i : ℕ) (s : State) : Same s (s.load i) :=
  Same.trans (@Same.setItem s i { s.item i with
      _isLoading := true, loader := some s.loaders.length } rfl)
    (Same.of_eq rfl (List.Perm.refl _) rfl rfl rfl (List.prefix_rfl))

theorem same_openConnection (i : ℕ) (s : State) : Same s (s.openConnection i) := by
  have hpush : Same s { s with _connections := s._connections.map (· ++ [i]) } :=
    Same.of_eq rfl (List.Perm.refl _) rfl rfl rfl (List.prefix_rfl)
  exact hpush.trans (same_load i _)

/-- `_loadNext` connects items and does not change a count. -/
theorem same_loadNext (toLoad : Option ℕ) (s : State) : Same s (s._loadNext toLoad) := by
  have hconnected : ∀ t, Same s t → Same s t.connected := fun t ht =>
    ht.trans (Same.of_eq rfl (List.Perm.refl _) rfl rfl rfl (List.prefix_rfl))
  have hnext : ∀ t, Same s t → Same s t._getNextItemToLoad.1 := fun t ht =>
    ht.trans (Same.of_eq rfl (List.Perm.refl _) rfl rfl rfl (List.prefix_rfl))
  have hopen : ∀ t i, Same s t → t._connections.isSome → t._isFinished = false →
      Startable t i → Same s (t.openConnection i) := fun t i ht _ _ _ =>
    ht.trans (same_openConnection i t)
  unfold State._loadNext
  cases toLoad with
  | none => exact loadNext_rule hconnected hnext hopen _ s (Same.refl s)
  | some i =>
      refine loadNext_rule_some hconnected hnext hopen _ (Same.refl s) ?_
      intro _ _
      exact (hconnected s (Same.refl s)).trans (same_openConnection i _)

theorem same_closeConnection (i : ℕ) (s : State) : Same s (s.closeConnection i) := by
  refine ((same_pauseItem i s).trans (same_removeFromConnections i _)).trans (Same.setItem ?_)
  rfl

theorem same_loadFirst (i : ℕ) (s : State) : Same s (s.loadFirst i) := by
  refine Same.trans (Same.setItem ?_) (same_loadNext (some i) _)
  rfl

/-- `loadNow` does not, either: the item that makes room for the other one has
not loaded. -/
theorem same_loadNow (hstep : s.loadNow key least = some s') : Same s s' := by
  have hconn : Same s s.connected :=
    Same.of_eq rfl (List.Perm.refl _) rfl rfl rfl (List.prefix_rfl)
  unfold State.loadNow at hstep
  split at hstep
  · simp only at hstep
    split at hstep
    · obtain rfl := Option.some.inj hstep
      exact hconn
    · split at hstep
      · split at hstep
        · obtain rfl := Option.some.inj hstep
          exact (hconn.trans (same_closeConnection least _)).trans (same_loadFirst key _)
        · cases hstep
      · obtain rfl := Option.some.inj hstep
        exact hconn.trans (same_loadFirst key _)
  · obtain rfl := Option.some.inj hstep
    exact Same.refl s

theorem same_pause {loadsNext : Bool} (key : ℕ) (s : State) : Same s (s.pause key loadsNext) := by
  unfold State.pause
  split
  · simp only
    split
    · exact (same_pauseItem key s).trans (same_loadNext none _)
    · exact same_pauseItem key s
  · exact Same.refl s

theorem same_pauseAll (s : State) : Same s s.pauseAll :=
  Same.trans (foldl_keeps (P := Same s) s._items (fun t i _ ht => ht.trans (same_pauseItem i t))
    (Same.refl s)) (Same.of_eq rfl (List.Perm.refl _) rfl rfl rfl (List.prefix_rfl))

theorem same_resume (key : ℕ) (s : State) : Same s (s.resume key) := by
  have hs : Same s { s with _isPaused := false } :=
    Same.of_eq rfl (List.Perm.refl _) rfl rfl rfl (List.prefix_rfl)
  unfold State.resume
  simp only
  split
  · refine (hs.trans (Same.setItem ?_)).trans (same_loadNext none _)
    rfl
  · exact hs

theorem same_resumeAll (s : State) : Same s s.resumeAll := by
  refine Same.trans (foldl_keeps (P := Same s) s._items ?_ (Same.refl s)) (same_loadNext none _)
  intro t i _ ht
  split
  · exact ht.trans (same_resume i t)
  · exact ht

theorem same_changeItemPriority {newPriority : ℤ} (key : ℕ) (s : State) :
    Same s (s.changeItemPriority key newPriority) := by
  unfold State.changeItemPriority
  split
  · refine Same.trans (Same.setItem ?_) (Same.of_eq rfl (List.perm_insertionSort _ _) rfl rfl rfl
      (List.prefix_rfl))
    rfl
  · exact Same.refl s

theorem same_start (withConnections : ℤ) (s : State) : Same s (s.start withConnections) := by
  have hs : Same s (if withConnections > 0 then { s with _numConnections := withConnections }
      else s) := by
    split
    · exact Same.of_eq rfl (List.Perm.refl _) rfl rfl rfl (List.prefix_rfl)
    · exact Same.refl s
  unfold State.start
  simp only
  generalize (if withConnections > 0 then { s with _numConnections := withConnections }
    else s) = t at hs
  split
  · exact hs.trans (same_loadNext none t)
  · have hempty : Same t { t with _connections := some [] } :=
      Same.of_eq rfl (List.Perm.refl _) rfl rfl rfl (List.prefix_rfl)
    have hloads := (hs.trans hempty).trans (same_loadNext none _)
    exact ⟨hloads.items, hloads.flags, hloads.total, hloads.loaded, hloads.finished, hloads.out⟩

/-! ## Items come, load and go -/

/-- `_onAllLoaded` is called when all have loaded, and the queue says so unless
it is finished already. -/
theorem tally_checkAllDone (h : Tally told s) : Tally told s.checkAllDone ∧ Noticed s.checkAllDone := by
  unfold State.checkAllDone State._onAllLoaded
  split
  · next hdone =>
      have hall : ∀ i ∈ s._items, (s.item i)._isLoaded = true := List.all_eq_true.mp hdone
      split
      · next hfinished => exact ⟨h, fun _ _ => hfinished⟩
      · obtain ⟨since, hsince, -⟩ := h.announced
        have hout : s.out ++ [.COMPLETE] = told ++ (since ++ [.COMPLETE]) := by
          rw [hsince, List.append_assoc]
        refine ⟨⟨h.total, h.loaded, fun _ => hall, _, hout, fun _ => ?_⟩, fun _ _ => rfl⟩
        exact List.mem_append_right _ (List.mem_singleton_self _)
  · next hdone =>
      refine ⟨h, fun _ hall => absurd ?_ hdone⟩
      exact List.all_eq_true.mpr hall

/-- An item that has not loaded is put into the list, so that the queue is not
finished any more. -/
theorem tally_insert (h : Tally told s) (hitem : (s.item i)._isLoaded = false) :
    Tally told (s.insert i) ∧ Noticed (s.insert i) := by
  have hperm : (s.insert i)._items.Perm (s._items ++ [i]) := List.perm_insertionSort _ _
  obtain ⟨since, hsince, -⟩ := h.announced
  refine ⟨⟨?_, ?_, nofun, since, hsince, nofun⟩, ?_⟩
  · rw [hperm.length_eq, List.length_append, List.length_singleton, Int.natCast_succ, ← h.total]
    rfl
  · rw [hperm.countP_eq, List.countP_append, List.countP_singleton]
    show s._itemsLoaded = _
    rw [h.loaded]
    simp [State.insert, hitem, sortItemsByPriority]
  · intro _ hall
    have hloaded := hall i (hperm.mem_iff.mpr
      (List.mem_append_right _ (List.mem_singleton_self _)))
    exact absurd (hitem.symm.trans hloaded) Bool.false_ne_true

theorem tally_addItem (h : Tally told s) (hlive : Live s) {item : LoadingItem}
    (hitem : item._isLoaded = false) : Tally told (s.addItem item) ∧ Noticed (s.addItem item) := by
  have hnew : s._instances ∉ s._items := fun hi => lt_irrefl _ (hlive.fresh _ hi)
  have hother : ∀ j ∈ s._items,
      ({ s with _instances := s._instances + 1 }.setItem s._instances item).item j = s.item j := by
    intro j hj
    refine setItem_of_ne ?_ item _
    rintro rfl
    exact hnew hj
  refine tally_insert ⟨h.total, ?_, ?_, h.announced⟩ ?_
  · refine h.loaded.trans (congrArg _ ?_)
    exact (List.countP_congr fun j hj => by rw [hother j hj]).symm
  · intro hdone j hj
    rw [hother j hj]
    exact h.finished hdone j hj
  · rw [setItem_self, hitem]

theorem same_nextIndex (s : State) : Same s s.nextIndex :=
  Same.of_eq rfl (List.Perm.refl _) rfl rfl rfl (List.prefix_rfl)

theorem tally_add {hostName : String} {priority : ℤ} {maxTries : ℕ} (h : Tally told s)
    (hlive : Live s) : Tally told (s.add hostName priority maxTries) ∧
      Noticed (s.add hostName priority maxTries) := by
  have hnext : Live s.nextIndex := hlive.of_eq rfl (List.Perm.refl _) rfl rfl rfl rfl
  obtain ⟨htally, hnoticed⟩ := @tally_addItem s.nextIndex told ((same_nextIndex s).tally h) hnext
    { hostName := hostName, _priority := priority, _additionIndex := s.nextIndex._additionIndex,
      maxTries := maxTries, numTries := 0, status := none, _isLoaded := false,
      _isLoading := false, loader := none } rfl
  unfold State.add
  simp only
  split
  · exact ⟨htally, hnoticed⟩
  · have hsame := same_loadNext none (s.nextIndex.addItem
      { hostName := hostName, _priority := priority, _additionIndex := s.nextIndex._additionIndex,
        maxTries := maxTries, numTries := 0, status := none, _isLoaded := false,
        _isLoading := false, loader := none })
    exact ⟨hsame.tally htally, hsame.noticed hnoticed⟩

/-- An item that is taken out of the list is taken out of both counts, and a
queue that was finished is finished without it. -/
theorem tally_removeFromItems (h : Tally told s) : Tally told (s._removeFromItems i) := by
  unfold State._removeFromItems
  split
  · next hi =>
      have hlength : (s._items.erase i).length + 1 = s._items.length :=
        List.length_erase_add_one hi
      refine ⟨?_, ?_, fun hdone j hj => h.finished hdone j (List.mem_of_mem_erase hj), h.announced⟩
      · show s._itemsTotal - 1 = ((s._items.erase i).length : ℤ)
        rw [h.total]
        omega
      · show (if (s.item i)._isLoaded then s._itemsLoaded - 1 else s._itemsLoaded) =
          ((s._items.erase i).countP fun j => (s.item j)._isLoaded : ℕ)
        rw [h.loaded, CountOne.countP_erase (p := fun j => (s.item j)._isLoaded) hi]
        split <;> simp
  · exact h

theorem same_destroy (i : ℕ) (s : State) : Same s (s.destroy i) := by
  refine ((same_stop i s).trans (same_close i _)).trans (Same.setItem ?_)
  rfl

theorem tally_removeItem (h : Tally told s) : Tally told (s.removeItem i) :=
  ((same_removeFromConnections i _).trans (same_destroy i _)).tally (tally_removeFromItems h)

theorem tally_remove (h : Tally told s) (hnoticed : Noticed s) :
    Tally told (s.remove key) ∧ Noticed (s.remove key) := by
  unfold State.remove
  split
  · exact tally_checkAllDone (tally_removeItem h)
  · exact ⟨h, hnoticed⟩

theorem tally_removeWith (status : Status) (h : Tally told s) (hnoticed : Noticed s) :
    Tally told (s.removeWith status) ∧ Noticed (s.removeWith status) := by
  have hall : Tally told ((s._items.filter fun i => (s.item i).status = some status).foldl
        (fun s i => s.remove i) s) ∧
      Noticed ((s._items.filter fun i => (s.item i).status = some status).foldl
        (fun s i => s.remove i) s) :=
    foldl_keeps (P := fun t => Tally told t ∧ Noticed t) _ (fun _ _ _ ht => tally_remove ht.1 ht.2)
      ⟨h, hnoticed⟩
  have hsame := same_loadNext none ((s._items.filter fun i => (s.item i).status = some status).foldl
    (fun s i => s.remove i) s)
  exact ⟨hsame.tally hall.1, hsame.noticed hall.2⟩

/-- After `removeAll` the list is empty. The counts are right because each item
was taken out of them. -/
theorem tally_removeAll (h : Tally told s) (hlive : Live s) :
    Tally told s.removeAll ∧ Noticed s.removeAll := by
  have htally : Tally told (s._items.foldl (fun s i => s.removeItem i) s) :=
    foldl_keeps (P := Tally told) s._items (fun _ _ _ => tally_removeItem) h
  have hnone := foldl_removeItem_all hlive
  unfold State.removeAll
  generalize s._items.foldl (fun s i => s.removeItem i) s = t at htally hnone
  refine ⟨⟨?_, ?_, fun _ => nofun, htally.announced⟩, fun hne => absurd rfl hne⟩
  · rw [htally.total, hnone]
  · rw [htally.loaded, hnone]

/-- An item that is loaded again without having loaded is counted as before,
and the queue is not finished after it. -/
theorem tally_requeue (h : Tally told s) (hitem : (s.item i)._isLoaded = false) :
    Tally told (s.requeue i) ∧ Noticed (s.requeue i) := by
  have hsame : Same (s._removeFromItems i) ((((s._removeFromItems i)._removeFromConnections
      i).stop i).close i) :=
    ((same_removeFromConnections i _).trans (same_stop i _)).trans (same_close i _)
  have hkeep : (s._removeFromItems i).item i = s.item i := by
    unfold State._removeFromItems
    split <;> rfl
  unfold State.requeue
  simp only
  generalize (((s._removeFromItems i)._removeFromConnections i).stop i).close i = t at hsame
  have hset : Same t (t.setItem i
      { t.item i with status := none, _additionIndex := t._additionIndex }) := by
    refine Same.setItem ?_
    rfl
  have hall := (hsame.trans hset).trans (same_nextIndex _)
  refine tally_insert (hall.tally (tally_removeFromItems h)) ?_
  rw [hall.flags i, hkeep, hitem]

theorem tally_reload (h : Tally told s) (hnoticed : Noticed s)
    (hloaded : key ∈ s._items → (s.item key)._isLoaded = false)
    (hstep : s.reload key least = some s') : Tally told s' ∧ Noticed s' := by
  unfold State.reload at hstep
  split at hstep
  · next hkey =>
      obtain ⟨htally, hnot⟩ := tally_requeue h (hloaded hkey)
      have hsame := same_loadNow hstep
      exact ⟨hsame.tally htally, hsame.noticed hnot⟩
  · obtain rfl := Option.some.inj hstep
    exact ⟨h, hnoticed⟩

/-! ## What happens to a loader -/

theorem same_onStartedHandler (i : ℕ) (s : State) : Same s (s.onStartedHandler i) := by
  refine Same.setItem ?_
  rfl

theorem same_onSecurityErrorHandler (i : ℕ) (s : State) :
    Same s (s.onSecurityErrorHandler i) := by
  have hset : Same s (s.setItem i { s.item i with status := some .STATUS_ERROR }) := by
    refine Same.setItem ?_
    rfl
  unfold State.onSecurityErrorHandler
  simp only
  split
  · refine ((hset.trans (same_removeFromConnections i _)).trans (same_loadNext none _)).trans ?_
    exact Same.of_eq rfl (List.Perm.refl _) rfl rfl rfl (List.prefix_append _ _)
  · exact hset

theorem same_onErrorHandler (i : ℕ) (s : State) : Same s (s.onErrorHandler i) := by
  have htries : Same s (s.setItem i { s.item i with numTries := (s.item i).numTries + 1 }) := by
    refine Same.setItem ?_
    rfl
  unfold State.onErrorHandler
  simp only
  split
  · refine (htries.trans (Same.setItem ?_)).trans (same_load i _)
    rfl
  · exact htries.trans (same_onSecurityErrorHandler i _)

/-- One item more has loaded, and it may have been the last. The count of the
loaded items goes up before the queue looks whether all have loaded. -/
theorem tally_onCompleteHandler (h : Tally told s) (hnodup : s._items.Nodup) (hi : i ∈ s._items)
    (hitem : (s.item i)._isLoaded = false) :
    Tally told (s.onCompleteHandler i) ∧ Noticed (s.onCompleteHandler i) := by
  have hcount : Tally told (s.setItem i { s.item i with
      status := some .STATUS_FINISHED, _isLoaded := true })._incrementItemsLoaded := by
    refine ⟨h.total, ?_, ?_, h.announced⟩
    · show s._itemsLoaded + 1 = _
      rw [h.loaded, ← Int.natCast_succ]
      refine congrArg _ (CountOne.countP_set hnodup hi ?_ hitem ?_).symm
      · intro j hj
        exact congrArg _ (setItem_of_ne hj _ s)
      · exact congrArg _ (setItem_self i _ s)
    · intro hdone
      exact absurd (hitem.symm.trans (h.finished hdone i hi)) Bool.false_ne_true
  unfold State.onCompleteHandler
  simp only
  split
  · refine tally_checkAllDone (Same.tally ?_ hcount)
    exact ((same_removeFromConnections i _).trans (same_close i _)).trans (same_loadNext none _)
  · next hout => exact absurd hi hout

/-! ## Runs -/

theorem tally_hear {done : Bool} {handler : ℕ → State → State} (hlive : Live s)
    (hhandler : ∀ i t, i ∈ s._getAllConnections → t.item = s.item → t._items = s._items →
      Same s t → Tally told (handler i t) ∧ Noticed (handler i t))
    (hstep : s.hear loader done handler = some s') : Tally told s' ∧ Noticed s' := by
  unfold State.hear at hstep
  split at hstep
  · next hl =>
      obtain ⟨i, hi, rfl⟩ := Option.map_eq_some_iff.mp hstep
      have hconn := (hlive.item_of hl hi).1
      split
      · refine hhandler i _ hconn rfl rfl ?_
        exact Same.of_eq rfl (List.Perm.refl _) rfl rfl rfl (List.prefix_rfl)
      · exact hhandler i s hconn rfl rfl (Same.refl s)
  · cases hstep

/-- The step lemma: the counts are kept by every sound event, one case for each
kind of event. -/
theorem tally_step {e : Event} (h : Tally told s) (hnoticed : Noticed s) (hlive : Live s)
    (hsound : Sound s e) (hstep : step s e = some s') : Tally told s' ∧ Noticed s' := by
  have hsame : ∀ t, Same s t → Tally told t ∧ Noticed t := fun t ht => ⟨ht.tally h, ht.noticed hnoticed⟩
  cases e with
  | reload key least => exact tally_reload h hnoticed hsound hstep
  | loadNow key least => exact hsame _ (same_loadNow hstep)
  | onStarted loader =>
      refine tally_hear hlive (fun i t _ _ _ ht => hsame _ ?_) hstep
      exact ht.trans (same_onStartedHandler i t)
  | onError loader =>
      refine tally_hear hlive (fun i t _ _ _ ht => hsame _ ?_) hstep
      exact ht.trans (same_onErrorHandler i t)
  | onSecurityError loader =>
      refine tally_hear hlive (fun i t _ _ _ ht => hsame _ ?_) hstep
      exact ht.trans (same_onSecurityErrorHandler i t)
  | onComplete loader =>
      refine tally_hear hlive (fun i t hi hitem hitems ht => ?_) hstep
      have hmem := hlive.connected i hi
      refine tally_onCompleteHandler (ht.tally h) (hitems ▸ hlive.items) (hitems ▸ hmem) ?_
      rw [hitem]
      exact ((hlive.phase i hmem).connected.mp hi).2.1
  | add hostName priority maxTries =>
      obtain rfl := Option.some.inj hstep
      exact tally_add h hlive
  | remove key =>
      obtain rfl := Option.some.inj hstep
      exact tally_remove h hnoticed
  | removeAll =>
      obtain rfl := Option.some.inj hstep
      exact tally_removeAll h hlive
  | removePausedItems =>
      obtain rfl := Option.some.inj hstep
      exact tally_removeWith _ h hnoticed
  | removeFailedItems =>
      obtain rfl := Option.some.inj hstep
      exact tally_removeWith _ h hnoticed
  | _ =>
      obtain rfl := Option.some.inj hstep
      refine hsame _ ?_
      first
        | exact same_start _ s
        | exact same_pause _ s
        | exact same_pauseAll s
        | exact same_resume _ s
        | exact same_resumeAll s
        | exact same_changeItemPriority _ s

/-- The rest of a run, from a state in which the counts are right. -/
theorem tally_rest {evs : List Event} (hrun : Runs.run step s evs = some s')
    (hsound : Runs.EachStep step (fun s e _ => Sound s e) s evs) (hlive : Live s)
    (htally : Tally told s) (hnoticed : Noticed s) : Live s' ∧ Tally told s' ∧ Noticed s' := by
  refine Runs.run_each (fun _ s => Live s ∧ Tally told s ∧ Noticed s)
    ⟨hlive, htally, hnoticed⟩ ?_ hrun hsound
  rintro _ t e u ⟨hlive, htally, hnoticed⟩ hstep he
  exact ⟨live_step hlive he hstep, tally_step htally hnoticed hlive he hstep⟩

theorem tally_run {numConnections maxConnectionsPerHost : ℤ} {evs : List Event}
    (hrun : Runs.run step (new numConnections maxConnectionsPerHost) evs = some s)
    (hsound : Runs.EachStep step (fun s e _ => Sound s e)
      (new numConnections maxConnectionsPerHost) evs) : Live s ∧ Tally [] s ∧ Noticed s := by
  have hnew : Tally [] (new numConnections maxConnectionsPerHost) :=
    ⟨rfl, rfl, nofun, [], rfl, nofun⟩
  exact tally_rest hrun hsound (live_new _ _) hnew fun hne => absurd rfl hne

/-- From a state that is not finished on, a queue that is finished has said so
since. This is what the second half of `counts_loaded` begins with. -/
theorem Tally.restart (h : Tally told s) (hrunning : s._isFinished = false) : Tally s.out s := by
  refine ⟨h.total, h.loaded, h.finished, [], (List.append_nil _).symm, ?_⟩
  intro hdone
  rw [hrunning] at hdone
  cases hdone

end BulkLoader

end Resources
