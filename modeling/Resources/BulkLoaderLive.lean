import Resources.BulkLoaderBound

/-!
# Connections and loaders of `BulkLoader`

A connection is a loader that is loading: there is one for each item in
`_connections`, nobody else is heard of, and an item that has loaded,
failed or been stopped has given its connection back (`Live`). So no
connection is lost (`connections_live`), and because the array is bounded,
so are the loaders that load at a time (`connections_bounded`).

Two calls can break this and are left out: `reload` of an item that has
loaded, and `loadNow` for one that is being connected or has failed. After
the first of them the queue can be finished while a loader is loading, and
a finished queue starts over with an empty array.
-/

namespace Resources

namespace BulkLoader

open State

variable {s s' t : State} {i j key least loader : ℕ}

/-! ## The invariant -/

/-- What the flags of an item say about its connection. An item that has a
connection is loading, has not loaded, and has not failed; an item that is not
loading waits or is stopped. -/
structure Phase (item : LoadingItem) (connected : Prop) : Prop where
  loaded : item._isLoaded = true ↔ item.status = some .STATUS_FINISHED
  connected : connected ↔ item._isLoading = true ∧ item._isLoaded = false ∧
    item.status ≠ some .STATUS_ERROR
  idle : item._isLoading = false → item._isLoaded = false ∧
    (item.status = none ∨ item.status = some .STATUS_STOPPED)

theorem Phase.congr {item : LoadingItem} {p q : Prop} (h : Phase item p) (hpq : q ↔ p) :
    Phase item q :=
  ⟨h.loaded, hpq.trans h.connected, h.idle⟩

/-- All is well in the queue. The list and the connections have no item twice,
what is connected is in the list, the flags of each item say whether it is
connected, and the loaders that are listened to are exactly the loaders of the
connected items. `own` says whose loader a number is, which is what makes the
last two clauses match one for one. -/
structure Live (s : State) : Prop where
  items : s._items.Nodup
  fresh : ∀ i ∈ s._items, i < s._instances
  connections : s._getAllConnections.Nodup
  connected : ∀ i ∈ s._getAllConnections, i ∈ s._items
  phase : ∀ i ∈ s._items, Phase (s.item i) (i ∈ s._getAllConnections)
  own : ∀ i loader, (s.item i).loader = some loader → s.loaders[loader]? = some i
  listeners : s.listeners.Nodup
  heard : ∀ loader ∈ s.listeners, ∃ i ∈ s._getAllConnections, (s.item i).loader = some loader
  hears : ∀ i ∈ s._getAllConnections, ∃ loader ∈ s.listeners, (s.item i).loader = some loader

namespace Live

theorem not_connected (h : Live s) (hi : i ∈ s._items) (hidle : (s.item i)._isLoading = false) :
    i ∉ s._getAllConnections := by
  intro hconn
  have hloading := ((h.phase i hi).connected.mp hconn).1
  exact absurd (hidle.symm.trans hloading) Bool.false_ne_true

/-- The item that a loader is for is connected while the loader is listened to,
and the loader is the latest one of the item. -/
theorem item_of (h : Live s) (hloader : loader ∈ s.listeners)
    (hitem : s.loaders[loader]? = some i) :
    i ∈ s._getAllConnections ∧ (s.item i).loader = some loader := by
  obtain ⟨j, hj, hown⟩ := h.heard loader hloader
  obtain rfl := Option.some.inj ((h.own j loader hown).symm.trans hitem)
  exact ⟨hj, hown⟩

theorem of_eq (h : Live s) (hitem : s'.item = s.item) (hitems : s'._items.Perm s._items)
    (hinst : s'._instances = s._instances)
    (hconn : s'._getAllConnections = s._getAllConnections) (hloaders : s'.loaders = s.loaders)
    (hlisteners : s'.listeners = s.listeners) : Live s' where
  items := hitems.nodup_iff.mpr h.items
  fresh i hi := by
    rw [hinst]
    exact h.fresh i (hitems.mem_iff.mp hi)
  connections := hconn ▸ h.connections
  connected i hi := hitems.mem_iff.mpr (h.connected i (hconn ▸ hi))
  phase i hi := by
    rw [hitem, hconn]
    exact h.phase i (hitems.mem_iff.mp hi)
  own := by
    rw [hitem, hloaders]
    exact h.own
  listeners := hlisteners ▸ h.listeners
  heard := by
    rw [hitem, hconn, hlisteners]
    exact h.heard
  hears := by
    rw [hitem, hconn, hlisteners]
    exact h.hears

/-- An item changes, but not its connection and not its loader, and its new
flags still say the truth about the connection. -/
theorem setItem (h : Live s) {item : LoadingItem}
    (hphase : Phase (s.item i) (i ∈ s._getAllConnections) →
      Phase item (i ∈ s._getAllConnections))
    (hloader : item.loader = (s.item i).loader) : Live (s.setItem i item) := by
  have hkeep : ∀ j, ((s.setItem i item).item j).loader = (s.item j).loader := by
    intro j
    by_cases hj : j = i
    · rw [hj, setItem_self, hloader]
    · rw [setItem_of_ne hj]
  refine ⟨h.items, h.fresh, h.connections, h.connected, ?_, ?_, h.listeners, ?_, ?_⟩
  · intro j hj
    by_cases hji : j = i
    · rw [hji, setItem_self]
      exact hphase (h.phase i (hji ▸ hj))
    · rw [setItem_of_ne hji]
      exact h.phase j hj
  · intro j loader
    rw [hkeep]
    exact h.own j loader
  · intro loader hl
    obtain ⟨j, hj, hown⟩ := h.heard loader hl
    exact ⟨j, hj, (hkeep j).trans hown⟩
  · intro j hj
    obtain ⟨loader, hl, hown⟩ := h.hears j hj
    exact ⟨loader, hl, (hkeep j).trans hown⟩

end Live

/-! ## A connection is opened -/

theorem live_connected (h : Live s) : Live s.connected :=
  h.of_eq rfl (List.Perm.refl _) rfl rfl rfl rfl

/-- No item that has failed has a connection, so that `_getNextItemToLoad`
finds none to take away, and leaves the queue as it is. -/
theorem getNextItemToLoad_fst (h : Live s) : s._getNextItemToLoad.1 = s := by
  have hkeep : s._connections.map (fun connections => connections.filter fun i =>
      ¬((s.item i).status = some .STATUS_ERROR ∧ (s.item i).numTries = (s.item i).maxTries)) =
      s._connections := by
    cases hconn : s._connections with
    | none => rfl
    | some connections =>
        rw [Option.map_some, List.filter_eq_self.mpr]
        intro i hi
        have hmem : i ∈ s._getAllConnections := by
          rw [_getAllConnections, hconn]
          exact hi
        have hgood := ((h.phase i (h.connected i hmem)).connected.mp hmem).2.2
        exact decide_eq_true fun hbad => hgood hbad.1
  unfold _getNextItemToLoad
  simp only
  rw [hkeep]

/-! ## One item aside -/

/-- All is well with the items other than `i`, and only they are heard of. This
is the state in the middle of an operation on `i`, between the moment where its
loader is closed or done and the moment where the flags and the connections
have caught up with that. -/
structure Without (i : ℕ) (s : State) : Prop where
  items : s._items.Nodup
  fresh : ∀ j ∈ s._items, j < s._instances
  connections : s._getAllConnections.Nodup
  connected : ∀ j ∈ s._getAllConnections, j ≠ i → j ∈ s._items
  phase : ∀ j ∈ s._items, j ≠ i → Phase (s.item j) (j ∈ s._getAllConnections)
  own : ∀ j loader, (s.item j).loader = some loader → s.loaders[loader]? = some j
  listeners : s.listeners.Nodup
  heard : ∀ loader ∈ s.listeners, ∃ j ∈ s._getAllConnections, j ≠ i ∧
    (s.item j).loader = some loader
  hears : ∀ j ∈ s._getAllConnections, j ≠ i → ∃ loader ∈ s.listeners,
    (s.item j).loader = some loader

/-- From a queue in which all is well, when the loaders of one item are not
listened to any more. -/
theorem Live.without (h : Live s) {listeners : List ℕ} (hnodup : listeners.Nodup)
    (hmem : ∀ loader, loader ∈ listeners ↔
      loader ∈ s.listeners ∧ s.loaders[loader]? ≠ some i) :
    Without i { s with listeners := listeners } := by
  refine ⟨h.items, h.fresh, h.connections, fun j hj _ => h.connected j hj,
    fun j hj _ => h.phase j hj, h.own, hnodup, ?_, ?_⟩
  · intro loader hl
    obtain ⟨hl, hne⟩ := (hmem loader).mp hl
    obtain ⟨j, hj, hown⟩ := h.heard loader hl
    refine ⟨j, hj, ?_, hown⟩
    rintro rfl
    exact hne (h.own j loader hown)
  · intro j hj hji
    obtain ⟨loader, hl, hown⟩ := h.hears j hj
    refine ⟨loader, (hmem loader).mpr ⟨hl, ?_⟩, hown⟩
    rw [h.own j loader hown]
    exact fun hij => hji (Option.some.inj hij)

theorem Live.without_hear (h : Live s) (hloader : loader ∈ s.listeners)
    (hitem : s.loaders[loader]? = some i) :
    Without i { s with listeners := s.listeners.erase loader } := by
  refine h.without (h.listeners.erase loader) ?_
  intro other
  rw [h.listeners.mem_erase_iff]
  constructor
  · rintro ⟨hne, hother⟩
    refine ⟨hother, ?_⟩
    intro hi
    have hown := (h.item_of hother hi).2.symm.trans (h.item_of hloader hitem).2
    exact hne (Option.some.inj hown)
  · rintro ⟨hother, hi⟩
    exact ⟨fun heq => hi (heq ▸ hitem), hother⟩

theorem Live.without_close (h : Live s) (i : ℕ) : Without i (s.close i) := by
  unfold State.close
  split
  · next loader hown =>
      refine h.without (h.listeners.erase loader) ?_
      intro other
      rw [h.listeners.mem_erase_iff]
      constructor
      · rintro ⟨hne, hother⟩
        refine ⟨hother, ?_⟩
        intro hi
        exact hne (Option.some.inj ((h.item_of hother hi).2.symm.trans hown))
      · rintro ⟨hother, hi⟩
        exact ⟨fun heq => hi (heq ▸ h.own i loader hown), hother⟩
  · next hnone =>
      refine h.without h.listeners ?_
      intro other
      refine ⟨fun hother => ⟨hother, ?_⟩, And.left⟩
      intro hi
      have hown := (h.item_of hother hi).2
      rw [hnone] at hown
      cases hown

theorem Live.without_of_idle (h : Live s) (hi : i ∉ s._getAllConnections) : Without i s := by
  refine h.without h.listeners ?_
  intro other
  refine ⟨fun hother => ⟨hother, ?_⟩, And.left⟩
  intro hitem
  exact hi (h.item_of hother hitem).1

namespace Without

/-- Whatever happens to the item itself, to its connection and to its place in
the list, the others are not touched by it. -/
theorem congr (h : Without i s) (hitem : ∀ j, j ≠ i → s'.item j = s.item j)
    (hown : ∀ loader, (s'.item i).loader = some loader → s.loaders[loader]? = some i)
    (hitems : s'._items.Nodup) (hfresh : ∀ j ∈ s'._items, j < s'._instances)
    (hplace : ∀ j, j ≠ i → (j ∈ s'._items ↔ j ∈ s._items))
    (hnodup : s'._getAllConnections.Nodup)
    (hmem : ∀ j, j ≠ i → (j ∈ s'._getAllConnections ↔ j ∈ s._getAllConnections))
    (hloaders : s'.loaders = s.loaders) (hlisteners : s'.listeners = s.listeners) :
    Without i s' where
  items := hitems
  fresh := hfresh
  connections := hnodup
  connected j hj hji := (hplace j hji).mpr (h.connected j ((hmem j hji).mp hj) hji)
  phase j hj hji := by
    rw [hitem j hji]
    exact (h.phase j ((hplace j hji).mp hj) hji).congr (hmem j hji)
  own j loader hj := by
    rw [hloaders]
    by_cases hji : j = i
    · rw [hji] at hj ⊢
      exact hown loader hj
    · rw [hitem j hji] at hj
      exact h.own j loader hj
  listeners := hlisteners ▸ h.listeners
  heard loader hl := by
    obtain ⟨j, hj, hji, hjown⟩ := h.heard loader (hlisteners ▸ hl)
    exact ⟨j, (hmem j hji).mpr hj, hji, by rw [hitem j hji, hjown]⟩
  hears j hj hji := by
    obtain ⟨loader, hl, hjown⟩ := h.hears j ((hmem j hji).mp hj) hji
    exact ⟨loader, hlisteners ▸ hl, by rw [hitem j hji, hjown]⟩

theorem setItem (h : Without i s) {item : LoadingItem}
    (hown : ∀ loader, item.loader = some loader → s.loaders[loader]? = some i) :
    Without i (s.setItem i item) := by
  refine h.congr (fun j hj => setItem_of_ne hj item s) ?_ h.items h.fresh (fun _ _ => Iff.rfl)
    h.connections (fun _ _ => Iff.rfl) rfl rfl
  rw [setItem_self]
  exact hown

theorem removeFromConnections (h : Without i s) : Without i (s._removeFromConnections i) := by
  refine h.congr (fun _ _ => rfl) (h.own i) h.items h.fresh (fun _ _ => Iff.rfl) ?_ ?_ rfl rfl
  · rw [getAllConnections_removeFromConnections]
    exact h.connections.erase i
  · intro j hji
    rw [getAllConnections_removeFromConnections, List.mem_erase_of_ne hji]

theorem not_mem_removeFromConnections (h : Without i s) :
    i ∉ (s._removeFromConnections i)._getAllConnections := by
  rw [getAllConnections_removeFromConnections]
  exact h.connections.not_mem_erase

/-- All is well again when the item is not connected and its flags say so. -/
theorem live (h : Without i s) (hi : i ∉ s._getAllConnections)
    (hphase : i ∈ s._items → Phase (s.item i) False) : Live s where
  items := h.items
  fresh := h.fresh
  connections := h.connections
  connected j hj := h.connected j hj fun hji => hi (hji ▸ hj)
  phase j hj := by
    by_cases hji : j = i
    · rw [hji] at hj ⊢
      exact (hphase hj).congr (iff_of_false hi id)
    · exact h.phase j hj hji
  own := h.own
  listeners := h.listeners
  heard loader hl := by
    obtain ⟨j, hj, -, hown⟩ := h.heard loader hl
    exact ⟨j, hj, hown⟩
  hears j hj := h.hears j hj fun hji => hi (hji ▸ hj)

/-- All is well again when the item is connected and its next loader begins to
load. -/
theorem load (h : Without i s) (hi : i ∈ s._getAllConnections) (hmem : i ∈ s._items)
    (hphase : (s.item i)._isLoaded = false ∧ (s.item i).status ≠ some .STATUS_FINISHED ∧
      (s.item i).status ≠ some .STATUS_ERROR) : Live (s.load i) := by
  have hself : (s.load i).item i = { s.item i with
      _isLoading := true, loader := some s.loaders.length } :=
    setItem_self i _ s
  have hother : ∀ j, j ≠ i → (s.load i).item j = s.item j := fun j hj => setItem_of_ne hj _ s
  have hconn : (s.load i)._getAllConnections = s._getAllConnections := rfl
  have hloaders : (s.load i).loaders = s.loaders ++ [i] := rfl
  have hlisteners : (s.load i).listeners = s.listeners ++ [s.loaders.length] := rfl
  have hold : ∀ (loader j : ℕ), s.loaders[loader]? = some j →
      (s.load i).loaders[loader]? = some j := by
    intro loader j hj
    obtain ⟨hlt, -⟩ := List.getElem?_eq_some_iff.mp hj
    rw [hloaders, List.getElem?_append_left hlt, hj]
  have hnew : s.loaders.length ∉ s.listeners := by
    intro hl
    obtain ⟨j, -, -, hown⟩ := h.heard _ hl
    have hnone := h.own j _ hown
    rw [List.getElem?_eq_none le_rfl] at hnone
    cases hnone
  refine ⟨h.items, h.fresh, h.connections, ?_, ?_, ?_, ?_, ?_, ?_⟩
  · intro j hj
    by_cases hji : j = i
    · exact hji ▸ hmem
    · exact h.connected j hj hji
  · intro j hj
    by_cases hji : j = i
    · rw [hji, hself]
      refine ⟨iff_of_false ?_ hphase.2.1, iff_of_true hi ⟨rfl, hphase.1, hphase.2.2⟩, nofun⟩
      rw [hphase.1]
      exact Bool.false_ne_true
    · rw [hother j hji]
      exact h.phase j hj hji
  · intro j loader hj
    by_cases hji : j = i
    · rw [hji, hself] at hj
      rw [hji, ← Option.some.inj hj, hloaders, List.getElem?_concat_length]
    · rw [hother j hji] at hj
      exact hold loader j (h.own j loader hj)
  · rw [hlisteners, List.nodup_append]
    refine ⟨h.listeners, List.nodup_singleton _, ?_⟩
    rintro a ha b hb rfl
    rw [List.mem_singleton.mp hb] at ha
    exact hnew ha
  · intro loader hl
    rw [hlisteners] at hl
    obtain hl | hl := List.mem_append.mp hl
    · obtain ⟨j, hj, hji, hown⟩ := h.heard loader hl
      exact ⟨j, hj, by rw [hother j hji, hown]⟩
    · refine ⟨i, hi, ?_⟩
      rw [hself, List.mem_singleton.mp hl]
  · intro j hj
    rw [hlisteners]
    by_cases hji : j = i
    · refine ⟨s.loaders.length, List.mem_append_right _ (List.mem_singleton_self _), ?_⟩
      rw [hji, hself]
    · obtain ⟨loader, hl, hown⟩ := h.hears j hj hji
      exact ⟨loader, List.mem_append_left _ hl, by rw [hother j hji, hown]⟩

end Without

/-! ## Connections are opened -/

theorem live_openConnection (h : Live s) (hconn : s._connections.isSome) (hi : i ∈ s._items)
    (hidle : (s.item i)._isLoading = false) : Live (s.openConnection i) := by
  have hnot := h.not_connected hi hidle
  have hall : ({ s with _connections := s._connections.map (· ++ [i]) } :
      State)._getAllConnections = s._getAllConnections ++ [i] :=
    getAllConnections_openConnection i hconn
  have hpush : Without i { s with _connections := s._connections.map (· ++ [i]) } := by
    refine (h.without_of_idle hnot).congr (fun _ _ => rfl) (h.own i) h.items h.fresh
      (fun _ _ => Iff.rfl) ?_ ?_ rfl rfl
    · rw [hall, List.nodup_append]
      refine ⟨h.connections, List.nodup_singleton i, ?_⟩
      rintro a ha b hb rfl
      rw [List.mem_singleton.mp hb] at ha
      exact hnot ha
    · intro j hji
      rw [hall, List.mem_append, List.mem_singleton, or_iff_left hji]
  refine hpush.load ?_ hi ?_
  · rw [hall]
    exact List.mem_append_right _ (List.mem_singleton_self i)
  · obtain ⟨hloaded, hstatus⟩ := (h.phase i hi).idle hidle
    refine ⟨hloaded, ?_, ?_⟩ <;> obtain hstatus | hstatus := hstatus <;> rw [hstatus] <;> nofun

theorem live_loadNext (h : Live s) : Live (s._loadNext none) := by
  refine loadNext_rule (P := Live) (fun _ => live_connected) ?_ ?_ _ s h
  · intro t ht
    rw [getNextItemToLoad_fst ht]
    exact ht
  · exact fun t i ht hconn _ hi => live_openConnection ht hconn hi.mem hi.notLoading

/-! ## Connections are given up -/

theorem close_eq (i : ℕ) (s : State) :
    s.close i = { s with listeners := (s.close i).listeners } := by
  unfold State.close
  split <;> rfl

theorem close_congr (hloader : (t.item i).loader = (s.item i).loader)
    (hlisteners : t.listeners = s.listeners) : (t.close i).listeners = (s.close i).listeners := by
  unfold State.close
  rw [hloader]
  cases (s.item i).loader with
  | none => exact hlisteners
  | some loader =>
      show t.listeners.erase loader = s.listeners.erase loader
      rw [hlisteners]

/-- After an item's loader was closed there is nothing more to close: `reload`
and `destroy` do so twice. -/
theorem close_again (hnodup : s.listeners.Nodup) (hloader : (t.item i).loader = (s.item i).loader)
    (hlisteners : t.listeners = (s.close i).listeners) : (t.close i).listeners = t.listeners := by
  unfold State.close at hlisteners ⊢
  rw [hloader]
  cases hown : (s.item i).loader with
  | none => rfl
  | some loader =>
      rw [hown] at hlisteners
      show t.listeners.erase loader = t.listeners
      rw [List.erase_of_not_mem]
      rw [hlisteners]
      exact hnodup.not_mem_erase

theorem setItem_setItem (i : ℕ) (item item' : LoadingItem) (s : State) :
    (s.setItem i item).setItem i item' = s.setItem i item' := by
  simp [setItem]

/-- What `stop` comes to: the item's loader is closed, and its flags may
change, but not its loader. -/
theorem stop_eq (i : ℕ) (s : State) : ∃ item : LoadingItem, item.loader = (s.item i).loader ∧
    s.stop i = { s with listeners := (s.close i).listeners }.setItem i item ∧
    ((s.item i)._isLoaded = false → item = { s.item i with
      status := some .STATUS_STOPPED, _isLoading := false }) := by
  unfold State.stop
  rw [close_eq i s]
  simp only
  split
  · next hloaded =>
      refine ⟨s.item i, rfl, ?_, ?_⟩
      · simp [setItem]
      · exact fun h => absurd (h.symm.trans hloaded) Bool.false_ne_true
  · exact ⟨{ s.item i with status := some .STATUS_STOPPED, _isLoading := false }, rfl, rfl,
      fun _ => rfl⟩

theorem destroy_eq (i : ℕ) (hnodup : s.listeners.Nodup) : ∃ item : LoadingItem,
    item.loader = none ∧
      s.destroy i = { s with listeners := (s.close i).listeners }.setItem i item := by
  obtain ⟨item, hloader, hstop, -⟩ := stop_eq i s
  have hagain : ((s.stop i).close i).listeners = (s.stop i).listeners := by
    refine close_again hnodup ?_ ?_
    · rw [hstop, setItem_self, hloader]
    · rw [hstop]
      rfl
  unfold State.destroy
  rw [close_eq i (s.stop i), hagain, hstop]
  exact ⟨_, rfl, setItem_setItem i item _ _⟩

theorem live_stop (h : Live s) (i : ℕ) : Without i (s.stop i) := by
  have hclose := h.without_close i
  obtain ⟨item, hloader, hstop, -⟩ := stop_eq i s
  rw [close_eq] at hclose
  rw [hstop]
  exact hclose.setItem fun loader hown => hclose.own i loader (hloader ▸ hown)

/-- An item that was not loaded is stopped afterwards, and says of itself that
it is not connected. -/
theorem stop_phase (i : ℕ) (h : (s.item i)._isLoaded = false) :
    Phase ((s.stop i).item i) False := by
  obtain ⟨item, -, hstop, hitem⟩ := stop_eq i s
  rw [hstop, setItem_self, hitem h]
  refine ⟨iff_of_false ?_ nofun, iff_of_false id nofun, fun _ => ⟨h, Or.inr rfl⟩⟩
  rw [h]
  exact Bool.false_ne_true

theorem live_pauseItem (h : Live s) (hi : i ∈ s._items) : Live (s.pauseItem i) := by
  have hphase := h.phase i hi
  unfold State.pauseItem
  split
  · next hstatus =>
      have hloaded : (s.item i)._isLoaded = false := by
        rw [Bool.eq_false_iff]
        exact fun hloaded => hstatus (hphase.loaded.mp hloaded)
      have hstop := live_stop h i
      refine hstop.removeFromConnections.live hstop.not_mem_removeFromConnections ?_
      exact fun _ => stop_phase i hloaded
  · next hstatus =>
      rw [not_not] at hstatus
      have hnot : i ∉ s._getAllConnections := by
        intro hconn
        have hloaded := (hphase.connected.mp hconn).2.1
        exact absurd (hloaded.symm.trans (hphase.loaded.mpr hstatus)) Bool.false_ne_true
      refine h.of_eq rfl (List.Perm.refl _) rfl ?_ rfl rfl
      rw [getAllConnections_removeFromConnections, List.erase_of_not_mem hnot]

theorem live_pause {loadsNext : Bool} (h : Live s) : Live (s.pause key loadsNext) := by
  unfold State.pause
  split
  · next hkey =>
      simp only
      split
      · exact live_loadNext (live_pauseItem h hkey)
      · exact live_pauseItem h hkey
  · exact h

theorem pauseItem_items (i : ℕ) (s : State) : (s.pauseItem i)._items = s._items := by
  unfold State.pauseItem
  simp only
  split
  · obtain ⟨item, -, hstop, -⟩ := stop_eq i s
    rw [hstop]
    rfl
  · rfl

theorem live_pauseAll (h : Live s) : Live s.pauseAll := by
  have hall : Live (s._items.foldl (fun s i => s.pauseItem i) s) := by
    refine (foldl_keeps (P := fun t => Live t ∧ t._items = s._items) s._items ?_ ⟨h, rfl⟩).1
    rintro t i hi ⟨ht, hitems⟩
    exact ⟨live_pauseItem ht (hitems ▸ hi), (pauseItem_items i t).trans hitems⟩
  exact hall.of_eq rfl (List.Perm.refl _) rfl rfl rfl rfl

/-- An item that is taken out of the list and of the connections, and whose
loader is closed, is out of the way. -/
theorem without_taken (h : Live s) (hitem : t.item = s.item) (hitems : t._items = s._items.erase i)
    (hconn : t._getAllConnections = s._getAllConnections.erase i)
    (hinst : t._instances = s._instances) (hloaders : t.loaders = s.loaders)
    (hlisteners : t.listeners = s.listeners) {item : LoadingItem}
    (hown : ∀ loader, item.loader = some loader → (s.item i).loader = some loader) :
    Without i ({ t with listeners := (t.close i).listeners }.setItem i item) := by
  have hclose := h.without_close i
  rw [close_eq] at hclose
  have hsame : (t.close i).listeners = (s.close i).listeners :=
    close_congr (by rw [hitem]) hlisteners
  rw [hsame]
  refine hclose.congr ?_ ?_ ?_ ?_ ?_ ?_ ?_ hloaders rfl
  · intro j hj
    rw [setItem_of_ne hj]
    exact congrFun hitem j
  · rw [setItem_self]
    exact fun loader hl => h.own i loader (hown loader hl)
  · exact hitems ▸ h.items.erase i
  · intro j hj
    refine hinst ▸ h.fresh j (List.mem_of_mem_erase (a := j) (b := i) ?_)
    exact hitems ▸ hj
  · intro j hj
    show j ∈ t._items ↔ j ∈ s._items
    rw [hitems, List.mem_erase_of_ne hj]
  · exact hconn ▸ h.connections.erase i
  · intro j hj
    show j ∈ t._getAllConnections ↔ j ∈ s._getAllConnections
    rw [hconn, List.mem_erase_of_ne hj]

/-- An item that is destroyed is not in the list and is not heard of, so
nothing has to be known of its flags. -/
theorem live_destroy (h : Live s) (hitem : t.item = s.item) (hitems : t._items = s._items.erase i)
    (hconn : t._getAllConnections = s._getAllConnections.erase i)
    (hinst : t._instances = s._instances) (hloaders : t.loaders = s.loaders)
    (hlisteners : t.listeners = s.listeners) : Live (t.destroy i) := by
  obtain ⟨item, hnone, hdestroy⟩ := destroy_eq i (hlisteners.symm ▸ h.listeners)
  rw [hdestroy]
  refine (without_taken h hitem hitems hconn hinst hloaders hlisteners ?_).live ?_ ?_
  · rw [hnone]
    exact nofun
  · show i ∉ t._getAllConnections
    rw [hconn]
    exact h.connections.not_mem_erase
  · intro hi
    have hout : i ∉ s._items.erase i := h.items.not_mem_erase
    exact absurd (hitems ▸ hi) hout

theorem live_removeItem (h : Live s) : Live (s.removeItem i) := by
  unfold State.removeItem State._removeFromItems
  split
  · exact live_destroy h rfl rfl (getAllConnections_removeFromConnections i s) rfl rfl rfl
  · next hi =>
      refine live_destroy h rfl ?_ (getAllConnections_removeFromConnections i s) rfl rfl rfl
      rw [List.erase_of_not_mem hi]
      rfl

/-- When all items have loaded there is no connection, so that the connections
that `_onAllLoaded` forgets are none. Here it is used that no item of the queue
is loaded again after it has loaded. -/
theorem live_checkAllDone (h : Live s) : Live s.checkAllDone := by
  unfold State.checkAllDone State._onAllLoaded
  split
  · next hdone =>
      split
      · exact h
      · have hnone : s._getAllConnections = [] := by
          rw [List.eq_nil_iff_forall_not_mem]
          intro i hi
          have hloaded := List.all_eq_true.mp hdone i (h.connected i hi)
          have hloading := ((h.phase i (h.connected i hi)).connected.mp hi).2.1
          exact absurd (hloading.symm.trans hloaded) Bool.false_ne_true
        exact h.of_eq rfl (List.Perm.refl _) rfl hnone.symm rfl rfl
  · exact h

theorem live_remove (h : Live s) : Live (s.remove key) := by
  unfold State.remove
  split
  · exact live_checkAllDone (live_removeItem h)
  · exact h

theorem removeFromItems_items (i : ℕ) (s : State) :
    (s._removeFromItems i)._items = s._items.erase i := by
  unfold State._removeFromItems
  split
  · rfl
  · next hi => exact (List.erase_of_not_mem hi).symm

theorem removeItem_items (i : ℕ) (h : Live s) : (s.removeItem i)._items = s._items.erase i := by
  have hlisteners : (s._removeFromItems i).listeners = s.listeners := by
    unfold State._removeFromItems
    split <;> rfl
  obtain ⟨item, -, hdestroy⟩ := destroy_eq (s := (s._removeFromItems i)._removeFromConnections i) i
    (hlisteners ▸ h.listeners)
  unfold State.removeItem
  rw [hdestroy]
  exact removeFromItems_items i s

theorem foldl_removeItem (items : List ℕ) : ∀ s : State, Live s →
    Live (items.foldl (fun s i => s.removeItem i) s) ∧
      ∀ j ∈ (items.foldl (fun s i => s.removeItem i) s)._items, j ∈ s._items ∧ j ∉ items := by
  induction items with
  | nil => exact fun s h => ⟨h, fun j hj => ⟨hj, List.not_mem_nil⟩⟩
  | cons i items ih =>
      intro s h
      obtain ⟨hlive, hitems⟩ := ih (s.removeItem i) (live_removeItem h)
      refine ⟨hlive, ?_⟩
      intro j hj
      obtain ⟨hj, hnot⟩ := hitems j hj
      rw [removeItem_items i h, h.items.mem_erase_iff] at hj
      exact ⟨hj.2, List.not_mem_cons_of_ne_of_not_mem hj.1 hnot⟩

theorem foldl_removeItem_all (h : Live s) :
    (s._items.foldl (fun s i => s.removeItem i) s)._items = [] := by
  rw [List.eq_nil_iff_forall_not_mem]
  intro j hj
  obtain ⟨hmem, hnot⟩ := (foldl_removeItem s._items s h).2 j hj
  exact hnot hmem

theorem live_removeAll (h : Live s) : Live s.removeAll := by
  have hlive := (foldl_removeItem s._items s h).1
  have hnoItems := foldl_removeItem_all h
  unfold State.removeAll
  generalize s._items.foldl (fun s i => s.removeItem i) s = t at hlive hnoItems
  have hnone : t._getAllConnections = [] := by
    rw [List.eq_nil_iff_forall_not_mem]
    intro j hj
    have hmem := hlive.connected j hj
    rw [hnoItems] at hmem
    exact List.not_mem_nil hmem
  refine hlive.of_eq rfl ?_ rfl hnone.symm rfl rfl
  show [].Perm t._items
  rw [hnoItems]

/-! ## The other calls -/

theorem mem_insert : j ∈ (s.insert i)._items ↔ j ∈ s._items ∨ j = i := by
  have hsort : j ∈ (s.insert i)._items ↔ j ∈ s._items ++ [i] := mem_sortItemsByPriority
  rw [hsort, List.mem_append, List.mem_singleton]

/-- An item that waits, and has no connection, is put into the list. -/
theorem Without.insert (h : Without i s) (hout : i ∉ s._items) (hfresh : i < s._instances)
    (hidle : i ∉ s._getAllConnections) (hphase : Phase (s.item i) False) : Live (s.insert i) := by
  have hwithout : Without i (s.insert i) := by
    refine h.congr (fun _ _ => rfl) (h.own i) ?_ ?_ ?_ h.connections (fun _ _ => Iff.rfl) rfl rfl
    · refine (List.perm_insertionSort _ _).nodup_iff.mpr (List.nodup_append.mpr
        ⟨h.items, List.nodup_singleton _, ?_⟩)
      rintro a ha b hb rfl
      rw [List.mem_singleton.mp hb] at ha
      exact hout ha
    · intro j hj
      obtain hj | rfl := mem_insert.mp hj
      · exact h.fresh j hj
      · exact hfresh
    · intro j hj
      exact mem_insert.trans (or_iff_left hj)
  exact hwithout.live hidle fun _ => hphase

theorem live_addItem (h : Live s) {item : LoadingItem} (hloader : item.loader = none)
    (hphase : Phase item False) : Live (s.addItem item) := by
  have hnew : s._instances ∉ s._items := fun hi => lt_irrefl _ (h.fresh _ hi)
  have hidle : s._instances ∉ s._getAllConnections := fun hi => hnew (h.connected _ hi)
  have hwithout : Without s._instances
      ({ s with _instances := s._instances + 1 }.setItem s._instances item) := by
    refine (h.without_of_idle hidle).congr (fun j hj => setItem_of_ne hj item _) ?_ h.items
      (fun j hj => Nat.lt_succ_of_lt (h.fresh j hj)) (fun _ _ => Iff.rfl) h.connections
      (fun _ _ => Iff.rfl) rfl rfl
    rw [setItem_self, hloader]
    exact nofun
  refine hwithout.insert hnew (Nat.lt_succ_self _) hidle ?_
  rw [setItem_self]
  exact hphase

/-- What `add` puts into the list: an item with a number that no other one has,
and that waits. -/
theorem live_addNew {hostName : String} {priority : ℤ} {maxTries : ℕ} (h : Live s) :
    Live (s.nextIndex.addItem
      { hostName := hostName, _priority := priority, _additionIndex := s.nextIndex._additionIndex,
        maxTries := maxTries, numTries := 0, status := none, _isLoaded := false,
        _isLoading := false, loader := none }) := by
  have hnext : Live s.nextIndex := h.of_eq rfl (List.Perm.refl _) rfl rfl rfl rfl
  refine live_addItem hnext rfl ⟨iff_of_false nofun nofun, iff_of_false id nofun, ?_⟩
  exact fun _ => ⟨rfl, Or.inl rfl⟩

theorem live_add {hostName : String} {priority : ℤ} {maxTries : ℕ} (h : Live s) :
    Live (s.add hostName priority maxTries) := by
  unfold State.add
  simp only
  split
  · exact live_addNew h
  · exact live_loadNext (live_addNew h)

theorem live_withConnections {withConnections : ℤ} (h : Live s) :
    Live (if withConnections > 0 then { s with _numConnections := withConnections } else s) := by
  split
  · exact h.of_eq rfl (List.Perm.refl _) rfl rfl rfl rfl
  · exact h

theorem live_noConnections (h : Live s) (hnone : s._connections = none) :
    Live { s with _connections := some [] } := by
  refine h.of_eq rfl (List.Perm.refl _) rfl ?_ rfl rfl
  rw [State._getAllConnections, State._getAllConnections, hnone]
  rfl

theorem live_start {withConnections : ℤ} (h : Live s) : Live (s.start withConnections) := by
  have hs : Live (if withConnections > 0 then { s with _numConnections := withConnections }
      else s) := live_withConnections h
  unfold State.start
  simp only
  generalize (if withConnections > 0 then { s with _numConnections := withConnections }
    else s) = t at hs
  split
  · exact live_loadNext hs
  · next hnone =>
      have hempty := live_noConnections hs (Option.not_isSome_iff_eq_none.mp hnone)
      exact (live_loadNext hempty).of_eq rfl (List.Perm.refl _) rfl rfl rfl rfl

/-- A stopped item waits again. It was not connected, and it is not by this. -/
theorem live_resumeItem (h : Live s) (hstopped : (s.item key).status = some .STATUS_STOPPED) :
    Live ({ s with _isPaused := false }.setItem key { s.item key with status := none }) := by
  have hs : Live { s with _isPaused := false } := h.of_eq rfl (List.Perm.refl _) rfl rfl rfl rfl
  refine hs.setItem ?_ rfl
  intro hphase
  have hloaded : (s.item key)._isLoaded = false := by
    rw [Bool.eq_false_iff]
    intro hloaded
    have hfinished := hphase.loaded.mp hloaded
    rw [hstopped] at hfinished
    cases hfinished
  refine ⟨iff_of_false (fun hl => ?_) nofun, ?_, fun _ => ⟨hloaded, Or.inl rfl⟩⟩
  · exact Bool.false_ne_true (hloaded.symm.trans hl)
  · refine hphase.connected.trans ?_
    rw [hstopped]
    simp

theorem live_resume (h : Live s) : Live (s.resume key) := by
  unfold State.resume
  simp only
  split
  · next hstopped => exact live_loadNext (live_resumeItem h hstopped.2)
  · exact h.of_eq rfl (List.Perm.refl _) rfl rfl rfl rfl

theorem foldl_resume (h : Live s) : Live (s._items.foldl (fun s i =>
    if (s.item i).status = some .STATUS_STOPPED then s.resume i else s) s) := by
  refine foldl_keeps _ ?_ h
  intro t i _ ht
  split
  · exact live_resume ht
  · exact ht

theorem live_resumeAll (h : Live s) : Live s.resumeAll := live_loadNext (foldl_resume h)

theorem foldl_remove (items : List ℕ) (h : Live s) :
    Live (items.foldl (fun s i => s.remove i) s) :=
  foldl_keeps (P := Live) _ (fun _ _ _ => live_remove) h

theorem live_removeWith (status : Status) (h : Live s) : Live (s.removeWith status) :=
  live_loadNext (foldl_remove _ h)

theorem live_changeItemPriority {newPriority : ℤ} (h : Live s) :
    Live (s.changeItemPriority key newPriority) := by
  unfold State.changeItemPriority
  split
  · have hset : Live (s.setItem key { s.item key with _priority := newPriority }) :=
      h.setItem (fun hphase => ⟨hphase.loaded, hphase.connected, hphase.idle⟩) rfl
    exact hset.of_eq rfl (List.perm_insertionSort _ _) rfl rfl rfl rfl
  · exact h

/-! ## What happens to a loader -/

/-- A loader that is heard of is that of a connected item; what the handler
does with the item is up to the four lemmas below. -/
theorem live_hear {done : Bool} {handler : ℕ → State → State}
    (hhandler : ∀ i, i ∈ s._getAllConnections → loader ∈ s.listeners →
      s.loaders[loader]? = some i →
      Live (handler i (if done then { s with listeners := s.listeners.erase loader } else s)))
    (h : Live s) (hstep : s.hear loader done handler = some s') : Live s' := by
  unfold State.hear at hstep
  split at hstep
  · next hl =>
      obtain ⟨i, hi, rfl⟩ := Option.map_eq_some_iff.mp hstep
      exact hhandler i (h.item_of hl hi).1 hl hi
  · cases hstep

theorem live_onStartedHandler (h : Live s) (hi : i ∈ s._getAllConnections) :
    Live (s.onStartedHandler i) := by
  refine h.setItem (fun hphase => ?_) rfl
  obtain ⟨hloading, hloaded, -⟩ := hphase.connected.mp hi
  refine ⟨iff_of_false ?_ nofun, iff_of_true hi ⟨hloading, hloaded, nofun⟩, ?_⟩
  · exact fun hl => Bool.false_ne_true (hloaded.symm.trans hl)
  · exact fun hidle => absurd (hidle.symm.trans hloading) Bool.false_ne_true

theorem live_close_idle (h : Live s) (hi : i ∉ s._getAllConnections) : Live (s.close i) := by
  have hclose := h.without_close i
  rw [close_eq] at hclose ⊢
  exact hclose.live hi fun hmem => (h.phase i hmem).congr (iff_of_false id hi)

/-- The connection of an item that has loaded is free again. -/
theorem live_loaded (h : Without i s) (hloading : (s.item i)._isLoading = true) :
    Live (((s.setItem i { s.item i with
      status := some .STATUS_FINISHED, _isLoaded := true })._incrementItemsLoaded
        |>._removeFromConnections i).close i) := by
  have hset : Without i (s.setItem i { s.item i with
      status := some .STATUS_FINISHED, _isLoaded := true }) := h.setItem fun loader => h.own i loader
  have hcount : Without i (s.setItem i { s.item i with
      status := some .STATUS_FINISHED, _isLoaded := true })._incrementItemsLoaded :=
    hset.congr (fun _ _ => rfl) (hset.own i) hset.items hset.fresh (fun _ _ => Iff.rfl)
      hset.connections (fun _ _ => Iff.rfl) rfl rfl
  have hnot := hcount.not_mem_removeFromConnections
  refine live_close_idle (hcount.removeFromConnections.live hnot fun _ => ?_) hnot
  show Phase ((s.setItem i { s.item i with
    status := some .STATUS_FINISHED, _isLoaded := true }).item i) False
  rw [setItem_self]
  refine ⟨iff_of_true rfl rfl, iff_of_false id ?_, ?_⟩
  · exact fun hc => Bool.false_ne_true hc.2.1.symm
  · exact fun hidle => absurd (hidle.symm.trans hloading) Bool.false_ne_true

/-- The item is counted, its connection goes to the next items that wait, and
if none is left that has not loaded the queue is finished. -/
theorem live_onCompleteHandler (h : Without i s) (hi : i ∈ s._items)
    (hloading : (s.item i)._isLoading = true) : Live (s.onCompleteHandler i) := by
  unfold State.onCompleteHandler
  simp only
  split
  · exact live_checkAllDone (live_loadNext (live_loaded h hloading))
  · next hout => exact absurd hi hout

/-- The connection of an item that has failed is free again. -/
theorem live_failed (h : Without i s) (hloading : (s.item i)._isLoading = true)
    (hloaded : (s.item i)._isLoaded = false) :
    Live ((s.setItem i { s.item i with status := some .STATUS_ERROR })._removeFromConnections i) := by
  have hset : Without i (s.setItem i { s.item i with status := some .STATUS_ERROR }) :=
    h.setItem fun loader => h.own i loader
  refine hset.removeFromConnections.live hset.not_mem_removeFromConnections fun _ => ?_
  show Phase ((s.setItem i { s.item i with status := some .STATUS_ERROR }).item i) False
  rw [setItem_self]
  refine ⟨iff_of_false ?_ nofun, iff_of_false id fun hc => hc.2.2 rfl, ?_⟩
  · exact fun hl => Bool.false_ne_true (hloaded.symm.trans hl)
  · exact fun hidle => absurd (hidle.symm.trans hloading) Bool.false_ne_true

theorem live_onSecurityErrorHandler (h : Without i s) (hi : i ∈ s._items)
    (hloading : (s.item i)._isLoading = true) (hloaded : (s.item i)._isLoaded = false) :
    Live (s.onSecurityErrorHandler i) := by
  unfold State.onSecurityErrorHandler
  simp only
  split
  · exact (live_loadNext (live_failed h hloading hloaded)).of_eq rfl (List.Perm.refl _) rfl rfl rfl
      rfl
  · next hout => exact absurd hi hout

/-- An item that has not been tried often enough keeps its connection for the
next try, and otherwise it has failed. -/
theorem live_onErrorHandler (h : Without i s) (hi : i ∈ s._items)
    (hconn : i ∈ s._getAllConnections) (hloading : (s.item i)._isLoading = true)
    (hloaded : (s.item i)._isLoaded = false) : Live (s.onErrorHandler i) := by
  have htries : Without i (s.setItem i { s.item i with numTries := (s.item i).numTries + 1 }) :=
    h.setItem fun loader => h.own i loader
  unfold State.onErrorHandler
  simp only
  split
  · refine Without.load (htries.setItem ?_) hconn hi ?_
    · exact fun loader => htries.own i loader
    · rw [setItem_self, setItem_self]
      exact ⟨hloaded, nofun, nofun⟩
  · refine live_onSecurityErrorHandler htries hi ?_ ?_
    · rw [setItem_self]
      exact hloading
    · rw [setItem_self]
      exact hloaded

/-! ## An item that is asked for at once -/

theorem stop_connections (i : ℕ) (s : State) :
    (s.stop i)._getAllConnections = s._getAllConnections := by
  obtain ⟨item, -, hstop, -⟩ := stop_eq i s
  rw [hstop]
  rfl

/-- The item that has to make room waits again, and all other items are as they
were. -/
theorem closeConnection_eq (h : Live s) (hi : i ∈ s._getAllConnections) :
    Live (s.closeConnection i) ∧ (s.closeConnection i)._items = s._items ∧
      ∀ j, j ≠ i → (s.closeConnection i).item j = s.item j := by
  have hmem := h.connected i hi
  obtain ⟨hloading, hloaded, -⟩ := (h.phase i hmem).connected.mp hi
  have hstatus : (s.item i).status ≠ some .STATUS_FINISHED := by
    intro hfinished
    exact Bool.false_ne_true (hloaded.symm.trans ((h.phase i hmem).loaded.mpr hfinished))
  have hpause : s.pauseItem i = (s.stop i)._removeFromConnections i := by
    unfold State.pauseItem
    rw [if_pos hstatus]
  obtain ⟨item, -, hstop, hitem⟩ := stop_eq i s
  have hlive := live_pauseItem h hmem
  have hnot : i ∉ (s.pauseItem i)._getAllConnections := by
    rw [hpause, getAllConnections_removeFromConnections, stop_connections]
    exact h.connections.not_mem_erase
  have hagain : Live ((s.pauseItem i)._removeFromConnections i) := by
    refine hlive.of_eq rfl (List.Perm.refl _) rfl ?_ rfl rfl
    rw [getAllConnections_removeFromConnections, List.erase_of_not_mem hnot]
  have hself : ((s.pauseItem i)._removeFromConnections i).item i = item := by
    rw [hpause, hstop]
    exact setItem_self i item _
  refine ⟨?_, ?_, ?_⟩
  · refine hagain.setItem (fun hphase => ?_) rfl
    rw [hself, hitem hloaded] at hphase ⊢
    refine ⟨iff_of_false ?_ nofun, ?_, fun _ => ⟨hloaded, Or.inl rfl⟩⟩
    · exact fun hl => Bool.false_ne_true (hloaded.symm.trans hl)
    · refine hphase.connected.trans (iff_of_false ?_ ?_)
      · exact fun hc => Bool.false_ne_true hc.1
      · exact fun hc => Bool.false_ne_true hc.1
  · exact pauseItem_items i s
  · intro j hj
    refine (setItem_of_ne hj _ _).trans ?_
    rw [hpause, hstop]
    exact setItem_of_ne hj item _

theorem live_loadFirst (h : Live s) (hi : i ∈ s._items) (hidle : (s.item i)._isLoading = false) :
    Live (s.loadFirst i) := by
  have hset : Live (s.setItem i { s.item i with _priority := s.highestPriority }) :=
    h.setItem (fun hphase => ⟨hphase.loaded, hphase.connected, hphase.idle⟩) rfl
  refine loadNext_rule_some (P := Live) (fun _ => live_connected) ?_ ?_ _ hset ?_
  · intro t ht
    rw [getNextItemToLoad_fst ht]
    exact ht
  · exact fun t j ht hconn _ hj => live_openConnection ht hconn hj.mem hj.notLoading
  · intro _ _
    refine live_openConnection (live_connected hset) rfl hi ?_
    show ((s.setItem i { s.item i with _priority := s.highestPriority }).item i)._isLoading = false
    rw [setItem_self]
    exact hidle

/-- The item is not just being connected and has not failed: if it says that it
is loading, it has started to or has loaded. For such an item `loadNow` does
nothing or opens the one connection that it is to have. -/
def Askable (s : State) (key : ℕ) : Prop :=
  (s.item key)._isLoading = true → (s.item key).status = some .STATUS_STARTED ∨
    (s.item key).status = some .STATUS_FINISHED

/-- What `loadNow` can do: nothing because the item is not in the list, nothing
because it is loading, or it loads the item, for which a connection may have
been closed before. -/
theorem loadNow_cases (h : Live s) (hask : key ∈ s._items → Askable s key)
    (hstep : s.loadNow key least = some s') :
    (key ∉ s._items ∧ s' = s) ∨
      ((s.item key)._isLoading = true ∧ s' = s.connected) ∨
      ∃ t, Live t ∧ key ∈ t._items ∧ (t.item key)._isLoading = false ∧ s' = t.loadFirst key := by
  unfold State.loadNow at hstep
  split at hstep
  · next hkey =>
      have hconn := live_connected h
      have hphase := h.phase key hkey
      simp only at hstep
      split at hstep
      · next hstatus =>
          obtain rfl := Option.some.inj hstep
          refine Or.inr (Or.inl ⟨?_, rfl⟩)
          rw [← Bool.not_eq_false]
          intro hidle
          have hwaits := (hphase.idle hidle).2
          have hstatus : (s.item key).status = some .STATUS_FINISHED ∨
              (s.item key).status = some .STATUS_STARTED := hstatus
          rcases hwaits with hwaits | hwaits <;> rw [hwaits] at hstatus <;>
            rcases hstatus with hstatus | hstatus <;> cases hstatus
      · next hstatus =>
          have hidle : (s.item key)._isLoading = false := by
            rw [Bool.eq_false_iff]
            exact fun hloading => hstatus (hask hkey hloading).symm
          split at hstep
          · split at hstep
            · next hleast =>
                obtain rfl := Option.some.inj hstep
                obtain ⟨hclosed, hitems, hother⟩ := closeConnection_eq hconn hleast
                have hne : key ≠ least := by
                  rintro rfl
                  exact hconn.not_connected hkey hidle hleast
                refine Or.inr (Or.inr ⟨_, hclosed, ?_, ?_, rfl⟩)
                · rw [hitems]
                  exact hkey
                · rw [hother key hne]
                  exact hidle
            · cases hstep
          · obtain rfl := Option.some.inj hstep
            exact Or.inr (Or.inr ⟨_, hconn, hkey, hidle, rfl⟩)
  · next hkey =>
      obtain rfl := Option.some.inj hstep
      exact Or.inl ⟨hkey, rfl⟩

theorem live_loadNow (h : Live s) (hask : key ∈ s._items → Askable s key)
    (hstep : s.loadNow key least = some s') : Live s' := by
  obtain ⟨-, rfl⟩ | ⟨-, rfl⟩ | ⟨t, ht, hkey, hidle, rfl⟩ := loadNow_cases h hask hstep
  · exact h
  · exact live_connected h
  · exact live_loadFirst ht hkey hidle

/-! ## An item that is loaded again -/

/-- An item that is loaded again without having loaded is taken out of the list
and put in again, and then waits like any other. -/
theorem live_requeue (h : Live s) (hi : i ∈ s._items) (hloaded : (s.item i)._isLoaded = false) :
    Live (s.requeue i) ∧ ((s.requeue i).item i)._isLoading = false := by
  have hremove : s._removeFromItems i = { s with
      _items := s._items.erase i
      _itemsLoaded := if (s.item i)._isLoaded then s._itemsLoaded - 1 else s._itemsLoaded
      _itemsTotal := s._itemsTotal - 1 } := if_pos hi
  have hconn : ((s._removeFromItems i)._removeFromConnections i)._getAllConnections =
      s._getAllConnections.erase i := by
    rw [getAllConnections_removeFromConnections, hremove]
    rfl
  generalize htaken : (s._removeFromItems i)._removeFromConnections i = t at hconn
  have hitem : t.item = s.item := by
    rw [← htaken, hremove]
    rfl
  have hitems : t._items = s._items.erase i := htaken ▸ removeFromItems_items i s
  have hinst : t._instances = s._instances := by
    rw [← htaken, hremove]
    rfl
  have hloaders : t.loaders = s.loaders := by
    rw [← htaken, hremove]
    rfl
  have hlisteners : t.listeners = s.listeners := by
    rw [← htaken, hremove]
    rfl
  obtain ⟨item, hloader, hstop, hstopped⟩ := stop_eq i t
  rw [hitem] at hloader hstopped
  have hclose : (t.stop i).close i = t.stop i := by
    rw [close_eq, close_again (s := t) (hlisteners ▸ h.listeners)]
    · rw [hstop, setItem_self, hloader, hitem]
    · rw [hstop]
      rfl
  have hrequeue : s.requeue i = ({ t with listeners := (t.close i).listeners }.setItem i
      { item with status := none, _additionIndex := t._additionIndex }).nextIndex.insert i := by
    unfold State.requeue
    simp only
    rw [htaken, hclose, hstop, setItem_self, setItem_setItem]
    rfl
  have hwithout : Without i ({ t with listeners := (t.close i).listeners }.setItem i
      { item with status := none, _additionIndex := t._additionIndex }) :=
    without_taken h hitem hitems hconn hinst hloaders hlisteners fun loader hl => hloader ▸ hl
  rw [hrequeue]
  generalize hu : { t with listeners := (t.close i).listeners }.setItem i
    { item with status := none, _additionIndex := t._additionIndex } = u at hwithout
  have huitems : u.nextIndex._items = s._items.erase i := by
    rw [← hitems, ← hu]
    rfl
  have huconn : u.nextIndex._getAllConnections = s._getAllConnections.erase i := by
    rw [← hconn, ← hu]
    rfl
  have huinst : u.nextIndex._instances = s._instances := by
    rw [← hinst, ← hu]
    rfl
  have huitem : u.nextIndex.item i =
      { item with status := none, _additionIndex := t._additionIndex } := by
    rw [← hu]
    exact setItem_self i _ _
  have hnext : Without i u.nextIndex :=
    hwithout.congr (fun _ _ => rfl) (hwithout.own i) hwithout.items hwithout.fresh
      (fun _ _ => Iff.rfl) hwithout.connections (fun _ _ => Iff.rfl) rfl rfl
  refine ⟨hnext.insert ?_ ?_ ?_ ?_, ?_⟩
  · rw [huitems]
    exact h.items.not_mem_erase
  · rw [huinst]
    exact h.fresh i hi
  · rw [huconn]
    exact h.connections.not_mem_erase
  · rw [huitem, hstopped hloaded]
    refine ⟨iff_of_false ?_ nofun, iff_of_false id nofun, fun _ => ⟨hloaded, Or.inl rfl⟩⟩
    exact fun hl => Bool.false_ne_true (hloaded.symm.trans hl)
  · show (u.nextIndex.item i)._isLoading = false
    rw [huitem, hstopped hloaded]

theorem live_reload (h : Live s) (hloaded : key ∈ s._items → (s.item key)._isLoaded = false)
    (hstep : s.reload key least = some s') : Live s' := by
  unfold State.reload at hstep
  split at hstep
  · next hkey =>
      obtain ⟨hlive, hidle⟩ := live_requeue h hkey (hloaded hkey)
      refine live_loadNow hlive (fun _ hloading => ?_) hstep
      exact absurd (hidle.symm.trans hloading) Bool.false_ne_true
  · obtain rfl := Option.some.inj hstep
    exact h

/-! ## Runs -/

/-- Only an item that has not loaded is loaded again, and none is asked for
that is being connected or has failed. -/
def Sound (s : State) : Event → Prop
  | .reload key _ => key ∈ s._items → (s.item key)._isLoaded = false
  | .loadNow key _ => key ∈ s._items → Askable s key
  | _ => True

theorem live_step {e : Event} (h : Live s) (hsound : Sound s e) (hstep : step s e = some s') :
    Live s' := by
  have hphase : ∀ i ∈ s._getAllConnections,
      (s.item i)._isLoading = true ∧ (s.item i)._isLoaded = false := by
    intro i hi
    obtain ⟨hloading, hloaded, -⟩ := (h.phase i (h.connected i hi)).connected.mp hi
    exact ⟨hloading, hloaded⟩
  cases e with
  | reload key least => exact live_reload h hsound hstep
  | loadNow key least => exact live_loadNow h hsound hstep
  | onStarted loader =>
      refine live_hear (fun i hi _ _ => ?_) h hstep
      exact live_onStartedHandler h hi
  | onComplete loader =>
      refine live_hear (fun i hi hl hown => ?_) h hstep
      exact live_onCompleteHandler (h.without_hear hl hown) (h.connected i hi) (hphase i hi).1
  | onError loader =>
      refine live_hear (fun i hi hl hown => ?_) h hstep
      exact live_onErrorHandler (h.without_hear hl hown) (h.connected i hi) hi (hphase i hi).1
        (hphase i hi).2
  | onSecurityError loader =>
      refine live_hear (fun i hi hl hown => ?_) h hstep
      exact live_onSecurityErrorHandler (h.without_hear hl hown) (h.connected i hi)
        (hphase i hi).1 (hphase i hi).2
  | _ =>
      obtain rfl := Option.some.inj hstep
      first
        | exact live_add h
        | exact live_start h
        | exact live_pause h
        | exact live_pauseAll h
        | exact live_resume h
        | exact live_resumeAll h
        | exact live_remove h
        | exact live_removeAll h
        | exact live_removeWith _ h
        | exact live_changeItemPriority h

theorem live_new (numConnections maxConnectionsPerHost : ℤ) :
    Live (new numConnections maxConnectionsPerHost) :=
  ⟨List.nodup_nil, nofun, List.nodup_nil, nofun, nofun, nofun, List.nodup_nil, nofun, nofun⟩

theorem live_run {numConnections maxConnectionsPerHost : ℤ} {evs : List Event}
    (hrun : Runs.run step (new numConnections maxConnectionsPerHost) evs = some s)
    (hsound : Runs.EachStep step (fun s e _ => Sound s e)
      (new numConnections maxConnectionsPerHost) evs) : Live s := by
  refine Runs.run_each (fun _ s => Live s) (live_new _ _) ?_ hrun hsound
  intro _ t e u ht hstep he
  exact live_step ht he hstep

/-- The items of the loaders that are listened to are those that have a
connection, one for one. -/
theorem Live.perm (h : Live s) :
    (s.listeners.map fun loader => s.loaders[loader]?).Perm (s._getAllConnections.map some) := by
  have hitem : ∀ loader ∈ s.listeners, ∃ i ∈ s._getAllConnections,
      (s.item i).loader = some loader ∧ s.loaders[loader]? = some i := by
    intro loader hl
    obtain ⟨i, hi, hown⟩ := h.heard loader hl
    exact ⟨i, hi, hown, h.own i loader hown⟩
  refine (List.perm_ext_iff_of_nodup ?_ ?_).mpr ?_
  · refine List.Nodup.map_on ?_ h.listeners
    intro loader hl other hother heq
    obtain ⟨i, -, hown, hi⟩ := hitem loader hl
    have hsame := (h.item_of hother (heq.symm.trans hi)).2
    exact Option.some.inj (hown.symm.trans hsame)
  · exact h.connections.map (Option.some_injective ℕ)
  · intro item
    rw [List.mem_map, List.mem_map]
    constructor
    · rintro ⟨loader, hl, rfl⟩
      obtain ⟨i, hi, -, hown⟩ := hitem loader hl
      exact ⟨i, hi, hown.symm⟩
    · rintro ⟨i, hi, rfl⟩
      obtain ⟨loader, hl, hown⟩ := h.hears i hi
      exact ⟨loader, hl, h.own i loader hown⟩

/-- The loaders that are loading something from a host. -/
def State.loadersOf (hostName : String) (s : State) : List ℕ :=
  s.listeners.filter fun loader =>
    (s.loaders[loader]?.map fun i => (s.item i).hostName) = some hostName

/-- The loaders that load from a host are as many as the connections to it. -/
theorem Live.loadersOf_length (h : Live s) (hostName : String) :
    (s.loadersOf hostName).length = (s._getConnectionsForHostName hostName).length := by
  have hcount := h.perm.countP_eq
    fun item => (item.map fun i => (s.item i).hostName) = some hostName
  rw [List.countP_map, List.countP_map] at hcount
  unfold State.loadersOf State._getConnectionsForHostName
  rw [← List.countP_eq_length_filter, ← List.countP_eq_length_filter]
  refine hcount.trans (List.countP_congr ?_)
  intro i _
  simp

end BulkLoader

end Resources
