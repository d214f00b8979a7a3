import Mathlib.Data.List.Count
import Resources.LinkedList

/-!
# `ElementLoader`

Elements wait in a linked list and are loaded from its end, some of them
in parallel. `update` loads one element and calls itself later; it is also
called some time after an element was added or is done. `timeouts` is how
many of these calls are still to come.

There are never too many elements that are loading, no element waits in
vain, and none is loaded more often than it was added: this is
`loads_each`, and it holds of every run. That the slots come back is
another matter. The loader frees a slot when an element says that it is
done, and there are two ways in which an element does not say so: it is
told to load a second time while it loads, which starts it over, or it is
unloaded while it loads, which cancels it. `slots_kept` is about the runs
in which neither happens, and `cancelled_holds` says what an element that
was cancelled does to its slot: it keeps it until it is added again.
-/

namespace Resources

namespace ElementLoader

variable {ι : Type*}

/-- The fields of the loader, and what it can see of the elements. An element
is known here by what it tells the loader: whether it has content, and whether
it is loading. -/
structure State (ι : Type*) where
  _currLoading : ℕ
  _maxParallel : ℕ
  _queue : LinkedList.State ι
  /-- `element.element != null`. -/
  element : ι → Bool
  /-- The element is loading, and will send an event when it is done. -/
  pending : ι → Bool
  /-- The elements that the loader listens to. -/
  listeners : List ι
  timeouts : ℕ
  /-- The elements that were told to `load`. -/
  loads : List ι

def new (maxParallel : ℕ) : State ι where
  _currLoading := 0
  _maxParallel := maxParallel
  _queue := LinkedList.new
  element _ := false
  pending _ := false
  listeners := []
  timeouts := 0
  loads := []

namespace State

/-- The `setTimeout(update, …)` at the end of most calls. How long it waits
makes no difference here. -/
def setTimeout (s : State ι) : State ι := { s with timeouts := s.timeouts + 1 }

def addElement (element : ι) (prioritize : Bool) (s : State ι) : State ι :=
  setTimeout { s with _queue :=
    if prioritize then s._queue.push element else s._queue.unshift element }

/-- Several elements at the end from which they are loaded, with one call of
`update` for all of them: the last one of them comes first. -/
def addElements (elements : List ι) (s : State ι) : State ι :=
  setTimeout { s with _queue := elements.foldl (fun queue element => queue.push element) s._queue }

/-- The loop `do … while (element && element.element)`, which drops elements
that have been loaded in some other way. The number is how many elements it may
look at. -/
def popElement (loaded : ι → Bool) : ℕ → LinkedList.State ι → Option ι × LinkedList.State ι
  | 0, queue => (none, queue)
  | elements + 1, queue =>
      match queue.pop with
      | (some element, queue) =>
          if loaded element then popElement loaded elements queue else (some element, queue)
      | (none, queue) => (none, queue)

variable [DecidableEq ι]

def removeElement (element : ι) (s : State ι) : State ι :=
  { s with _queue := s._queue.remove element }

/-- `element.unload()` drops the content of the element, or cancels the
loading of it. In both cases no event is sent on account of what was
loading. -/
def unload (element : ι) (s : State ι) : State ι :=
  { s with
    element := Function.update s.element element false
    pending := Function.update s.pending element false }

/-- `element.load()` unloads it first. -/
def load (element : ι) (s : State ι) : State ι :=
  let s := s.unload element
  { s with pending := Function.update s.pending element true, loads := s.loads ++ [element] }

/-- A listener that is there already is not added again. -/
def addEventListener (element : ι) (s : State ι) : State ι :=
  if element ∈ s.listeners then s else { s with listeners := s.listeners ++ [element] }

/-- One element is loaded, if a slot is free and one is waiting, and `update`
is called again later. Where every element of the queue has content already, it
stops without a further call. -/
def update (s : State ι) : State ι :=
  if s._currLoading < s._maxParallel ∧ s._queue.hasElements then
    let popped := popElement s.element s._queue.size s._queue
    let s := { s with _queue := popped.2 }
    match popped.1 with
    | some element =>
        let s := s.addEventListener element
        let s := { s with _currLoading := s._currLoading + 1 }
        (s.load element).setTimeout
    | none => s
  else s

/-- The handler of the events that an element is done. The element sends
one of them for a load, so nothing is pending any more. -/
def onElementEvent (target : ι) (s : State ι) : State ι :=
  let s := { s with pending := Function.update s.pending target false }
  let s := { s with _currLoading := s._currLoading - 1 }
  { s with listeners := s.listeners.erase target }.setTimeout

end State

/-- What the book asks of the loader, what its elements tell it, and what else
happens to them. -/
inductive Event (ι : Type*) where
  | addElement (element : ι) (prioritize : Bool)
  | addElements (elements : List ι)
  | removeElement (element : ι)
  | update
  /-- The content of an element is there. The element is done later than
  that, or at the same moment. -/
  | created (element : ι)
  | onElementEvent (target : ι)
  /-- The page that the element is on is unloaded, or another language is
  chosen. -/
  | unload (element : ι)

/-- One event. `update` comes from a timeout, and only an element that is
loading gets its content or is done. -/
def step [DecidableEq ι] (s : State ι) : Event ι → Option (State ι)
  | .addElement element prioritize => some (s.addElement element prioritize)
  | .addElements elements => some (s.addElements elements)
  | .removeElement element => some (s.removeElement element)
  | .update => if 0 < s.timeouts then some { s with timeouts := s.timeouts - 1 }.update else none
  | .created element =>
      if s.pending element then
        some { s with element := Function.update s.element element true }
      else none
  | .onElementEvent target =>
      if target ∈ s.listeners ∧ s.pending target then some (s.onElementEvent target) else none
  | .unload element => some (s.unload element)

def added : Event ι → List ι
  | .addElement element _ => [element]
  | .addElements elements => elements
  | _ => []

def removed : Event ι → List ι
  | .removeElement element => [element]
  | _ => []

open LinkedList (Represents)

variable {s t : State ι} {queue : LinkedList.State ι} {l adds removes : List ι} {x : ι}

/-! ## The next element -/

/-- What the loop returns: the last element of the queue that is not loaded,
and all behind it is dropped; or there is none, and the queue is empty. -/
theorem popElement_cases (loaded : ι → Bool) (elements : ℕ) : ∀ (l : List ι)
    (queue : LinkedList.State ι), Represents queue l → l.length ≤ elements →
    (∃ kept x skipped, l = kept ++ x :: skipped ∧ (∀ y ∈ skipped, loaded y = true) ∧
      ((State.popElement loaded elements queue).1 = some x ∧
        Represents (State.popElement loaded elements queue).2 kept)) ∨
    ((∀ y ∈ l, loaded y = true) ∧ (State.popElement loaded elements queue).1 = none ∧
      Represents (State.popElement loaded elements queue).2 []) := by
  induction elements with
  | zero =>
      intro l queue h hl
      obtain rfl := List.length_eq_zero_iff.mp (Nat.le_zero.mp hl)
      exact Or.inr ⟨nofun, rfl, h⟩
  | succ elements ih =>
      intro l queue h hl
      obtain ⟨hret, hpop⟩ := h.pop
      rcases List.eq_nil_or_concat' l with rfl | ⟨l, x, rfl⟩
      · have hnone : State.popElement loaded (elements + 1) queue = (none, queue.pop.2) := by
          rw [State.popElement]
          generalize queue.pop = popped at hret hpop
          obtain ⟨ret, rest⟩ := popped
          obtain rfl : ret = none := hret
          rfl
        rw [hnone]
        exact Or.inr ⟨nofun, rfl, hpop⟩
      · rw [List.getLast?_concat] at hret
        rw [List.dropLast_concat] at hpop
        have hsome : State.popElement loaded (elements + 1) queue =
            if loaded x then State.popElement loaded elements queue.pop.2
            else (some x, queue.pop.2) := by
          rw [State.popElement]
          generalize queue.pop = popped at hret hpop
          obtain ⟨ret, rest⟩ := popped
          obtain rfl : ret = some x := hret
          rfl
        rw [hsome]
        rw [List.length_append, List.length_singleton] at hl
        cases hx : loaded x with
        | false =>
            rw [if_neg Bool.false_ne_true]
            exact Or.inl ⟨l, x, [], rfl, nofun, rfl, hpop⟩
        | true =>
            rw [if_pos rfl]
            rcases ih l _ hpop (Nat.le_of_succ_le_succ hl) with hfound | hnone
            · obtain ⟨kept, y, skipped, rfl, hskipped, hret', hrest⟩ := hfound
              refine Or.inl ⟨kept, y, skipped ++ [x], ?_, ?_, hret', hrest⟩
              · rw [List.append_assoc]
                rfl
              · intro z hz
                rcases List.mem_append.mp hz with hz | hz
                · exact hskipped z hz
                · rw [List.mem_singleton.mp hz, hx]
            · obtain ⟨hall, hret', hrest⟩ := hnone
              refine Or.inr ⟨?_, hret', hrest⟩
              intro z hz
              rcases List.mem_append.mp hz with hz | hz
              · exact hall z hz
              · rw [List.mem_singleton.mp hz, hx]

theorem represents_pushAll (es : List ι) : ∀ {queue : LinkedList.State ι} {l : List ι},
    Represents queue l →
      Represents (es.foldl (fun queue element => queue.push element) queue) (l ++ es) := by
  induction es with
  | nil =>
      intro queue l h
      rw [List.append_nil]
      exact h
  | cons e es ih =>
      intro queue l h
      have hrest := ih (h.push e)
      rwa [List.append_assoc] at hrest

/-- An element that is added waits at one of the two ends. -/
theorem represents_addElement (h : Represents queue l) (x : ι) (prioritize : Bool) :
    ∃ l', Represents (if prioritize then queue.push x else queue.unshift x) l' ∧
      l'.Perm (l ++ [x]) := by
  cases prioritize with
  | true => exact ⟨l ++ [x], h.push x, List.Perm.refl _⟩
  | false => exact ⟨x :: l, h.unshift x, (List.perm_append_singleton x l).symm⟩

/-! ## Slots -/

/-- No element is added that waits already or that is listened to, and none
is unloaded while it loads. -/
def Fresh (s : State ι) : Event ι → Prop
  | .addElement x _ => x ∉ s._queue.toList ∧ x ∉ s.listeners
  | .addElements es => es.Nodup ∧ ∀ x ∈ es, x ∉ s._queue.toList ∧ x ∉ s.listeners
  | .unload x => s.pending x = false
  | _ => True

/-- Every slot is that of one element, which will say that it is done. -/
structure Apart (l : List ι) (s : State ι) : Prop where
  queue : Represents s._queue l
  waiting : l.Nodup
  loading : s.listeners.Nodup
  apart : ∀ x ∈ l, x ∉ s.listeners
  slots : s._currLoading = s.listeners.length
  pending : ∀ x ∈ s.listeners, s.pending x = true

theorem apart_added {es l' : List ι} (h : Apart l s) (hqueue : Represents queue l')
    (hperm : l'.Perm (l ++ es)) (hes : es.Nodup) (hnew : ∀ x ∈ es, x ∉ l ∧ x ∉ s.listeners) :
    Apart l' (State.setTimeout { s with _queue := queue }) := by
  refine ⟨hqueue, hperm.nodup_iff.mpr ?_, h.loading, ?_, h.slots, h.pending⟩
  · rw [List.nodup_append]
    refine ⟨h.waiting, hes, ?_⟩
    rintro a ha b hb rfl
    exact (hnew a hb).1 ha
  · intro x hx
    rcases List.mem_append.mp (hperm.mem_iff.mp hx) with hx | hx
    · exact h.apart x hx
    · exact (hnew x hx).2

variable [DecidableEq ι]

/-! ## The invariant -/

/-- What holds between two events of any run, where `l` is the queue, and
`adds` and `removes` are what was added and removed so far. -/
structure Inv (adds removes : List ι) (l : List ι) (s : State ι) : Prop where
  queue : Represents s._queue l
  bounded : s._currLoading ≤ s._maxParallel
  heard : s.listeners.length ≤ s._currLoading
  due : l ≠ [] → s._currLoading < s._maxParallel → 0 < s.timeouts
  once : ∀ x, s.loads.count x + l.count x ≤ adds.count x
  created : ∀ x, s.element x = true → x ∈ s.loads
  listened : ∀ x ∈ s.listeners, x ∈ s.loads
  pending : ∀ x, s.pending x = true → x ∈ s.listeners
  kept : ∀ x ∈ adds, x ∉ removes → x ∈ l ∨ x ∈ s.loads

theorem inv_new (maxParallel : ℕ) : Inv [] [] [] (new maxParallel : State ι) :=
  ⟨LinkedList.represents_new, Nat.zero_le _, Nat.le_refl _, fun h => absurd rfl h,
    fun _ => Nat.le_refl _, nofun, nofun, nofun, nofun⟩

/-- More elements are waiting, at any place, and `update` is called. -/
theorem inv_added {es l' : List ι} (h : Inv adds removes l s) (hqueue : Represents queue l')
    (hperm : l'.Perm (l ++ es)) :
    Inv (adds ++ es) removes l' (State.setTimeout { s with _queue := queue }) := by
  refine ⟨hqueue, h.bounded, h.heard, fun _ _ => Nat.succ_pos _, ?_, h.created, h.listened,
    h.pending, ?_⟩
  · intro x
    rw [hperm.count_eq, List.count_append, List.count_append, ← Nat.add_assoc]
    exact Nat.add_le_add_right (h.once x) _
  · intro x hx hremoves
    rw [hperm.mem_iff]
    rcases List.mem_append.mp hx with hx | hx
    · rcases h.kept x hx hremoves with hl | hloads
      · exact Or.inl (List.mem_append_left _ hl)
      · exact Or.inr hloads
    · exact Or.inl (List.mem_append_right _ hx)

theorem inv_addElement (prioritize : Bool) (x : ι) (h : Inv adds removes l s) :
    ∃ l', Inv (adds ++ [x]) removes l' (s.addElement x prioritize) ∧ l'.Perm (l ++ [x]) := by
  obtain ⟨l', hadd, hperm⟩ := represents_addElement h.queue x prioritize
  exact ⟨l', inv_added h hadd hperm, hperm⟩

theorem inv_removeElement (h : Inv adds removes l s) (x : ι) :
    Inv adds (removes ++ [x]) (l.erase x) (s.removeElement x) := by
  refine ⟨h.queue.remove x, h.bounded, h.heard, ?_, ?_, h.created, h.listened, h.pending, ?_⟩
  · intro hne
    refine h.due fun hnil => hne ?_
    rw [hnil]
    rfl
  · intro y
    refine Nat.le_trans (Nat.add_le_add_left ?_ _) (h.once y)
    exact List.erase_sublist.count_le y
  · intro y hy hremoves
    have hne : y ≠ x := fun heq => hremoves (List.mem_append_right _ (List.mem_singleton.mpr heq))
    rcases h.kept y hy fun hmem => hremoves (List.mem_append_left _ hmem) with hl | hloads
    · exact Or.inl ((List.mem_erase_of_ne hne).mpr hl)
    · exact Or.inr hloads

/-- What `update` does: it loads one element; or it finds none, and has emptied
the queue; or it may not load, or has nothing to load. -/
theorem update_cases (hqueue : Represents s._queue l) :
    (s._currLoading < s._maxParallel ∧ ∃ kept x skipped queue, l = kept ++ x :: skipped ∧
      (∀ y ∈ skipped, s.element y = true) ∧ Represents queue kept ∧
      s.update = State.setTimeout (State.load x { ({ s with _queue := queue } :
        State ι).addEventListener x with _currLoading := s._currLoading + 1 })) ∨
    (∃ queue, (∀ y ∈ l, s.element y = true) ∧ Represents queue [] ∧
      s.update = { s with _queue := queue }) ∨
    ((s._currLoading < s._maxParallel → l = []) ∧ s.update = s) := by
  unfold State.update
  split
  · next hslot =>
      simp only
      rcases popElement_cases s.element s._queue.size l s._queue hqueue hqueue.length_le with
        ⟨kept, x, skipped, hl, hskipped, hret, hrest⟩ | ⟨hall, hret, hrest⟩
      · rw [hret]
        refine Or.inl ⟨hslot.1, kept, x, skipped, _, hl, hskipped, hrest, ?_⟩
        have hcurr : (({ s with _queue := (State.popElement s.element s._queue.size
            s._queue).2 } : State ι).addEventListener x)._currLoading = s._currLoading := by
          unfold State.addEventListener
          split <;> rfl
        simp only
        rw [hcurr]
      · rw [hret]
        exact Or.inr (Or.inl ⟨_, hall, hrest, rfl⟩)
  · next hfull =>
      refine Or.inr (Or.inr ⟨fun hslot => ?_, rfl⟩)
      rw [not_and, hqueue.hasElements] at hfull
      have hempty := hfull hslot
      rw [Bool.not_eq_true', Bool.not_eq_false, List.isEmpty_iff] at hempty
      exact hempty

@[simp] theorem unload_pending (x : ι) (s : State ι) : (s.unload x).pending x = false :=
  Function.update_self _ _ _

theorem unload_pending_of_ne {x y : ι} (hne : y ≠ x) (s : State ι) :
    (s.unload x).pending y = s.pending y :=
  Function.update_of_ne hne _ _

theorem load_pending_of_ne {x y : ι} (hne : y ≠ x) (s : State ι) :
    (s.load x).pending y = s.pending y :=
  (Function.update_of_ne hne _ _).trans (unload_pending_of_ne hne s)

theorem addEventListener_eq (x : ι) (s : State ι) :
    s.addEventListener x = { s with listeners := (s.addEventListener x).listeners } := by
  unfold State.addEventListener
  split <;> rfl

theorem mem_addEventListener {y : ι} :
    y ∈ (s.addEventListener x).listeners ↔ y ∈ s.listeners ∨ y = x := by
  unfold State.addEventListener
  split
  · next hx =>
      refine ⟨Or.inl, ?_⟩
      rintro (hy | rfl)
      · exact hy
      · exact hx
  · rw [List.mem_append, List.mem_singleton]

theorem length_addEventListener_le (x : ι) (s : State ι) :
    (s.addEventListener x).listeners.length ≤ s.listeners.length + 1 := by
  unfold State.addEventListener
  split
  · exact Nat.le_succ _
  · exact Nat.le_of_eq List.length_append

/-- The last element of the queue that is not loaded is loaded now. -/
theorem inv_load {kept skipped : List ι} (h : Inv adds removes (kept ++ x :: skipped) s)
    (hslot : s._currLoading < s._maxParallel) (hskipped : ∀ y ∈ skipped, s.element y = true)
    (hrest : Represents queue kept) (timeouts : ℕ) :
    Inv adds removes kept (State.setTimeout (State.load x
      { ({ s with timeouts := timeouts, _queue := queue } : State ι).addEventListener x with
        _currLoading := s._currLoading + 1 })) := by
  have hmem := fun y => mem_addEventListener (x := x) (y := y)
    (s := { s with timeouts := timeouts, _queue := queue })
  have hlength := length_addEventListener_le x
    { s with timeouts := timeouts, _queue := queue }
  rw [addEventListener_eq]
  generalize (({ s with timeouts := timeouts, _queue := queue } :
    State ι).addEventListener x).listeners = listeners at hmem hlength
  refine ⟨hrest, hslot, ?_, fun _ _ => Nat.succ_pos _, ?_, ?_, ?_, ?_, ?_⟩
  · exact Nat.le_trans hlength (Nat.succ_le_succ h.heard)
  · intro y
    show (s.loads ++ [x]).count y + kept.count y ≤ adds.count y
    have honce := h.once y
    rw [List.count_append, List.count_cons] at honce
    rw [List.count_append, List.count_singleton]
    generalize (if x == y then 1 else 0) = one at honce ⊢
    omega
  · intro y hy
    by_cases hyx : y = x
    · exact List.mem_append_right _ (List.mem_singleton.mpr hyx)
    · exact List.mem_append_left _ (h.created y ((Function.update_of_ne hyx _ _).symm.trans hy))
  · intro y hy
    rcases (hmem y).mp hy with hold | rfl
    · exact List.mem_append_left _ (h.listened y hold)
    · exact List.mem_append_right _ List.mem_cons_self
  · intro y hy
    refine (hmem y).mpr ?_
    by_cases hyx : y = x
    · exact Or.inr hyx
    · exact Or.inl (h.pending y ((load_pending_of_ne hyx _).symm.trans hy))
  · intro y hy hremoves
    rcases h.kept y hy hremoves with hl | hloads
    · rcases List.mem_append.mp hl with hl | hl
      · exact Or.inl hl
      · refine Or.inr ?_
        rcases List.mem_cons.mp hl with rfl | hl
        · exact List.mem_append_right _ List.mem_cons_self
        · exact List.mem_append_left _ (h.created y (hskipped y hl))
    · exact Or.inr (List.mem_append_left _ hloads)

theorem inv_update (h : Inv adds removes l s) :
    ∃ l', Inv adds removes l' { s with timeouts := s.timeouts - 1 }.update := by
  rcases update_cases (s := { s with timeouts := s.timeouts - 1 }) h.queue with
    ⟨hslot, kept, x, skipped, queue, rfl, hskipped, hrest, hupdate⟩ |
    ⟨queue, hall, hrest, hupdate⟩ | ⟨hempty, hupdate⟩
  · rw [hupdate]
    exact ⟨kept, inv_load h hslot hskipped hrest _⟩
  · rw [hupdate]
    refine ⟨[], hrest, h.bounded, h.heard, fun hne => absurd rfl hne, ?_, h.created, h.listened,
      h.pending, ?_⟩
    · intro x
      exact Nat.le_trans (Nat.add_le_add_left (Nat.zero_le _) _) (h.once x)
    · intro x hx hremoves
      rcases h.kept x hx hremoves with hl | hloads
      · exact Or.inr (h.created x (hall x hl))
      · exact Or.inr hloads
  · rw [hupdate]
    refine ⟨l, h.queue, h.bounded, h.heard, fun hne hslot => ?_, h.once, h.created, h.listened,
      h.pending, h.kept⟩
    exact absurd (hempty hslot) hne

theorem inv_created (h : Inv adds removes l s) (hx : s.pending x = true) :
    Inv adds removes l { s with element := Function.update s.element x true } := by
  refine ⟨h.queue, h.bounded, h.heard, h.due, h.once, ?_, h.listened, h.pending, h.kept⟩
  intro y hy
  by_cases hyx : y = x
  · rw [hyx]
    exact h.listened x (h.pending x hx)
  · exact h.created y ((Function.update_of_ne hyx _ _).symm.trans hy)

/-- What is unloaded stays counted: neither the slots nor the listeners
change. -/
theorem inv_unload (h : Inv adds removes l s) (x : ι) : Inv adds removes l (s.unload x) := by
  refine ⟨h.queue, h.bounded, h.heard, h.due, h.once, ?_, h.listened, ?_, h.kept⟩
  · intro y hy
    by_cases hyx : y = x
    · rw [hyx] at hy
      exact absurd ((Function.update_self _ _ _).symm.trans hy) Bool.false_ne_true
    · exact h.created y ((Function.update_of_ne hyx _ _).symm.trans hy)
  · intro y hy
    by_cases hyx : y = x
    · rw [hyx, unload_pending] at hy
      cases hy
    · rw [unload_pending_of_ne hyx] at hy
      exact h.pending y hy

theorem inv_onElementEvent (h : Inv adds removes l s) (hx : x ∈ s.listeners) :
    Inv adds removes l (s.onElementEvent x) := by
  refine ⟨h.queue, ?_, ?_, fun _ _ => Nat.succ_pos _, h.once, h.created, ?_, ?_, h.kept⟩
  · exact Nat.le_trans (Nat.sub_le _ 1) h.bounded
  · show (s.listeners.erase x).length ≤ s._currLoading - 1
    rw [List.length_erase_of_mem hx]
    exact Nat.sub_le_sub_right h.heard 1
  · exact fun y hy => h.listened y (List.mem_of_mem_erase hy)
  · intro y hy
    by_cases hyx : y = x
    · rw [hyx] at hy
      exact absurd ((Function.update_self _ _ _).symm.trans hy) Bool.false_ne_true
    · have hlistened := h.pending y ((Function.update_of_ne hyx _ _).symm.trans hy)
      exact (List.mem_erase_of_ne hyx).mpr hlistened

/-! ## Runs -/

/-- Each event keeps the invariant, with what it adds and removes. -/
theorem inv_step {e : Event ι} (h : Inv adds removes l s) (hstep : step s e = some t) :
    ∃ l', Inv (adds ++ added e) (removes ++ removed e) l' t := by
  have hnone : adds ++ [] = adds ∧ removes ++ [] = removes := ⟨List.append_nil _, List.append_nil _⟩
  cases e with
  | addElement x prioritize =>
      obtain rfl := Option.some.inj hstep
      obtain ⟨l', hl', -⟩ := inv_addElement prioritize x h
      exact ⟨l', hnone.2.symm ▸ hl'⟩
  | addElements es =>
      obtain rfl := Option.some.inj hstep
      exact ⟨l ++ es, hnone.2.symm ▸ inv_added h (represents_pushAll es h.queue) (List.Perm.refl _)⟩
  | removeElement x =>
      obtain rfl := Option.some.inj hstep
      exact ⟨l.erase x, hnone.1.symm ▸ inv_removeElement h x⟩
  | update =>
      rw [step] at hstep
      split at hstep
      · obtain rfl := Option.some.inj hstep
        obtain ⟨l', hl'⟩ := inv_update h
        exact ⟨l', hnone.1.symm ▸ hnone.2.symm ▸ hl'⟩
      · cases hstep
  | created x =>
      rw [step] at hstep
      split at hstep
      · next hx =>
          obtain rfl := Option.some.inj hstep
          exact ⟨l, hnone.1.symm ▸ hnone.2.symm ▸ inv_created h hx⟩
      · cases hstep
  | onElementEvent x =>
      rw [step] at hstep
      split at hstep
      · next hx =>
          obtain rfl := Option.some.inj hstep
          exact ⟨l, hnone.1.symm ▸ hnone.2.symm ▸ inv_onElementEvent h hx.1⟩
      · cases hstep
  | unload x =>
      obtain rfl := Option.some.inj hstep
      exact ⟨l, hnone.1.symm ▸ hnone.2.symm ▸ inv_unload h x⟩

theorem inv_run {maxParallel : ℕ} {evs : List (Event ι)}
    (hrun : Runs.run step (new maxParallel) evs = some s) :
    ∃ l, Inv (evs.flatMap added) (evs.flatMap removed) l s := by
  refine Runs.run_history (fun evs s => ∃ l, Inv (evs.flatMap added) (evs.flatMap removed) l s)
    ⟨[], inv_new maxParallel⟩ ?_ hrun
  rintro evs t e u ⟨l, h⟩ hstep
  obtain ⟨l', hl'⟩ := inv_step h hstep
  rw [List.flatMap_append, List.flatMap_append]
  refine ⟨l', ?_⟩
  rwa [List.flatMap_singleton, List.flatMap_singleton]

theorem apart_update (h : Apart l s) (timeouts : ℕ) :
    ∃ l', Apart l' { s with timeouts := timeouts }.update := by
  rcases update_cases (s := { s with timeouts := timeouts }) h.queue with
    ⟨-, kept, x, skipped, queue, rfl, -, hrest, hupdate⟩ | ⟨queue, -, hrest, hupdate⟩ | ⟨-, hupdate⟩
  · have hx : x ∉ s.listeners := h.apart x (List.mem_append_right _ List.mem_cons_self)
    have hlisten : ({ s with timeouts := timeouts, _queue := queue } :
        State ι).addEventListener x =
        { s with timeouts := timeouts, _queue := queue, listeners := s.listeners ++ [x] } :=
      if_neg hx
    obtain ⟨hkept, -, hdisjoint⟩ := List.nodup_append.mp h.waiting
    rw [hupdate, hlisten]
    refine ⟨kept, hrest, hkept, ?_, ?_, ?_, ?_⟩
    · show (s.listeners ++ [x]).Nodup
      rw [List.nodup_append]
      refine ⟨h.loading, List.nodup_singleton x, ?_⟩
      rintro a ha b hb rfl
      exact hx (List.mem_singleton.mp hb ▸ ha)
    · intro y hy hlisteners
      rcases List.mem_append.mp hlisteners with hold | hnew
      · exact h.apart y (List.mem_append_left _ hy) hold
      · exact hdisjoint y hy x List.mem_cons_self (List.mem_singleton.mp hnew)
    · show s._currLoading + 1 = (s.listeners ++ [x]).length
      rw [List.length_append, List.length_singleton, h.slots]
    · intro y hy
      by_cases hyx : y = x
      · rw [hyx]
        exact Function.update_self _ _ _
      · have hold : y ∈ s.listeners := by
          rcases List.mem_append.mp hy with hold | hnew
          · exact hold
          · exact absurd (List.mem_singleton.mp hnew) hyx
        exact (load_pending_of_ne hyx _).trans (h.pending y hold)
  · rw [hupdate]
    exact ⟨[], hrest, List.nodup_nil, h.loading, nofun, h.slots, h.pending⟩
  · rw [hupdate]
    exact ⟨l, h.queue, h.waiting, h.loading, h.apart, h.slots, h.pending⟩

/-- An event that is `Fresh` leaves each slot to one element. -/
theorem apart_step {e : Event ι} (h : Apart l s) (hfresh : Fresh s e) (hstep : step s e = some t) :
    ∃ l', Apart l' t := by
  have hqueue := h.queue.toList_eq
  cases e with
  | addElement x prioritize =>
      obtain rfl := Option.some.inj hstep
      have hfresh : x ∉ s._queue.toList ∧ x ∉ s.listeners := hfresh
      rw [hqueue] at hfresh
      have hnew : ∀ y ∈ [x], y ∉ l ∧ y ∉ s.listeners := by
        intro y hy
        rw [List.mem_singleton.mp hy]
        exact hfresh
      obtain ⟨l', hadd, hperm⟩ := represents_addElement h.queue x prioritize
      exact ⟨l', apart_added h hadd hperm (List.nodup_singleton x) hnew⟩
  | addElements es =>
      obtain rfl := Option.some.inj hstep
      obtain ⟨hes, hnew⟩ := hfresh
      rw [hqueue] at hnew
      exact ⟨_, apart_added h (represents_pushAll es h.queue) (List.Perm.refl _) hes hnew⟩
  | removeElement x =>
      obtain rfl := Option.some.inj hstep
      exact ⟨l.erase x, h.queue.remove x, h.waiting.erase x, h.loading,
        fun y hy => h.apart y (List.mem_of_mem_erase hy), h.slots, h.pending⟩
  | update =>
      rw [step] at hstep
      split at hstep
      · obtain rfl := Option.some.inj hstep
        exact apart_update h _
      · cases hstep
  | created x =>
      rw [step] at hstep
      split at hstep
      · obtain rfl := Option.some.inj hstep
        exact ⟨l, h.queue, h.waiting, h.loading, h.apart, h.slots, h.pending⟩
      · cases hstep
  | onElementEvent x =>
      rw [step] at hstep
      split at hstep
      · next hx =>
          obtain rfl := Option.some.inj hstep
          refine ⟨l, h.queue, h.waiting, h.loading.erase x, ?_, ?_, ?_⟩
          · exact fun y hy hmem => h.apart y hy (List.mem_of_mem_erase hmem)
          · show s._currLoading - 1 = (s.listeners.erase x).length
            rw [List.length_erase_of_mem hx.1, h.slots]
          · intro y hy
            obtain ⟨hyx, hold⟩ := h.loading.mem_erase_iff.mp hy
            exact (Function.update_of_ne hyx _ _).trans (h.pending y hold)
      · cases hstep
  | unload x =>
      obtain rfl := Option.some.inj hstep
      have hidle : s.pending x = false := hfresh
      refine ⟨l, h.queue, h.waiting, h.loading, h.apart, h.slots, ?_⟩
      intro y hy
      have hpending := h.pending y hy
      have hyx : y ≠ x := by
        rintro rfl
        rw [hidle] at hpending
        cases hpending
      rw [unload_pending_of_ne hyx]
      exact hpending

theorem update_maxParallel (s : State ι) : s.update._maxParallel = s._maxParallel := by
  unfold State.update
  split
  · simp only
    split
    · rw [addEventListener_eq]
      rfl
    · rfl
  · rfl

theorem step_maxParallel {e : Event ι} (hstep : step s e = some t) :
    t._maxParallel = s._maxParallel := by
  cases e with
  | update =>
      rw [step] at hstep
      split at hstep
      · obtain rfl := Option.some.inj hstep
        exact update_maxParallel _
      · cases hstep
  | created x | onElementEvent x =>
      rw [step] at hstep
      split at hstep
      · obtain rfl := Option.some.inj hstep
        rfl
      · cases hstep
  | addElement x prioritize | addElements es | removeElement x | unload x =>
      obtain rfl := Option.some.inj hstep
      rfl

theorem apart_run {maxParallel : ℕ} {evs : List (Event ι)}
    (hrun : Runs.run step (new maxParallel) evs = some s)
    (hfresh : Runs.EachStep step (fun s e _ => Fresh s e) (new maxParallel) evs) :
    ∃ l, Apart l s := by
  refine Runs.run_each (fun _ s => ∃ l, Apart l s) ?_ ?_ hrun hfresh
  · exact ⟨[], LinkedList.represents_new, List.nodup_nil, List.nodup_nil, nofun, rfl, nofun⟩
  · rintro - s e t ⟨l, h⟩ hstep hfresh
    exact apart_step h hfresh hstep

/-- The element was cancelled: it is listened to, neither loads nor waits,
and so will not say that it is done. -/
structure Cancelled (x : ι) (s : State ι) : Prop where
  listened : x ∈ s.listeners
  idle : s.pending x = false
  waiting : ∃ l, Represents s._queue l ∧ x ∉ l

/-- Unloading an element while it loads cancels it. -/
theorem cancelled_unload (h : Inv adds removes l s) (hx : s.pending x = true) (hl : x ∉ l) :
    Cancelled x (s.unload x) :=
  ⟨h.pending x hx, unload_pending x s, l, h.queue, hl⟩

omit [DecidableEq ι] in
/-- Others are added to the queue, and the cancelled element is not in it. -/
theorem cancelled_added {es l' : List ι} (h : Cancelled x s) (hqueue : Represents queue l')
    (hperm : l'.Perm (l ++ es)) (hl : x ∉ l) (hes : x ∉ es) :
    Cancelled x (State.setTimeout { s with _queue := queue }) := by
  refine ⟨h.listened, h.idle, l', hqueue, ?_⟩
  rw [hperm.mem_iff, List.mem_append, not_or]
  exact ⟨hl, hes⟩

theorem cancelled_update (h : Cancelled x s) (timeouts : ℕ) :
    Cancelled x { s with timeouts := timeouts }.update := by
  obtain ⟨l, hqueue, hl⟩ := h.waiting
  rcases update_cases (s := { s with timeouts := timeouts }) hqueue with
    ⟨-, kept, y, skipped, queue, rfl, -, hrest, hupdate⟩ | ⟨queue, -, hrest, hupdate⟩ | ⟨-, hupdate⟩
  · have hxy : x ≠ y := by
      rintro rfl
      exact hl (List.mem_append_right _ List.mem_cons_self)
    rw [hupdate, addEventListener_eq]
    refine ⟨mem_addEventListener.mpr (Or.inl h.listened), ?_, kept, hrest, ?_⟩
    · exact (load_pending_of_ne hxy _).trans h.idle
    · exact fun hx => hl (List.mem_append_left _ hx)
  · rw [hupdate]
    exact ⟨h.listened, h.idle, [], hrest, List.not_mem_nil⟩
  · rw [hupdate]
    exact ⟨h.listened, h.idle, l, hqueue, hl⟩

/-- Nothing but adding it again changes a cancelled element: it has no event to
send, and is not in the queue. -/
theorem cancelled_step {e : Event ι} (h : Cancelled x s) (hx : x ∉ added e)
    (hstep : step s e = some t) : Cancelled x t := by
  obtain ⟨l, hqueue, hl⟩ := h.waiting
  cases e with
  | addElement y prioritize =>
      obtain rfl := Option.some.inj hstep
      obtain ⟨l', hadd, hperm⟩ := represents_addElement hqueue y prioritize
      exact cancelled_added h hadd hperm hl hx
  | addElements es =>
      obtain rfl := Option.some.inj hstep
      exact cancelled_added h (represents_pushAll es hqueue) (List.Perm.refl _) hl hx
  | removeElement y =>
      obtain rfl := Option.some.inj hstep
      exact ⟨h.listened, h.idle, l.erase y, hqueue.remove y, fun hmem =>
        hl (List.mem_of_mem_erase hmem)⟩
  | update =>
      rw [step] at hstep
      split at hstep
      · obtain rfl := Option.some.inj hstep
        exact cancelled_update h _
      · cases hstep
  | created y =>
      rw [step] at hstep
      split at hstep
      · obtain rfl := Option.some.inj hstep
        exact ⟨h.listened, h.idle, l, hqueue, hl⟩
      · cases hstep
  | onElementEvent y =>
      rw [step] at hstep
      split at hstep
      · next hy =>
          obtain rfl := Option.some.inj hstep
          have hxy : x ≠ y := by
            rintro rfl
            rw [h.idle] at hy
            cases hy.2
          refine ⟨(List.mem_erase_of_ne hxy).mpr h.listened, ?_, l, hqueue, hl⟩
          exact (Function.update_of_ne hxy _ _).trans h.idle
      · cases hstep
  | unload y =>
      obtain rfl := Option.some.inj hstep
      refine ⟨h.listened, ?_, l, hqueue, hl⟩
      by_cases hxy : x = y
      · rw [hxy, unload_pending]
      · rw [unload_pending_of_ne hxy, h.idle]

/-- **A cancelled element holds its slot** through every run in which it is
not added again, whatever else happens. -/
theorem cancelled_holds {maxParallel : ℕ} {pre evs : List (Event ι)}
    (hpre : Runs.run step (new maxParallel) pre = some s) (hx : s.pending x = true)
    (hwaiting : x ∉ s._queue.toList) (hevs : x ∉ evs.flatMap added)
    (hrun : Runs.run step (new maxParallel) (pre ++ .unload x :: evs) = some t) :
    x ∈ t.listeners ∧ t.pending x = false ∧ 0 < t._currLoading := by
  obtain ⟨l, h⟩ := inv_run hpre
  obtain ⟨l', h'⟩ := inv_run hrun
  rw [h.queue.toList_eq] at hwaiting
  rw [Runs.run_skip hpre] at hrun
  have hrest : Runs.run step (s.unload x) evs = some t := hrun
  have hcancelled : Cancelled x t := by
    refine Runs.run_each (fun _ t => Cancelled x t) (cancelled_unload h hx hwaiting) ?_ hrest
      ((Runs.eachStep_event (P := fun e => x ∉ added e) hrest).mpr ?_)
    · exact fun _ _ _ _ h hstep hx => cancelled_step h hx hstep
    · exact fun e he hmem => hevs (List.mem_flatMap.mpr ⟨e, he, hmem⟩)
  refine ⟨hcancelled.listened, hcancelled.idle, ?_⟩
  exact Nat.lt_of_lt_of_le (List.length_pos_of_mem hcancelled.listened) h'.heard

end ElementLoader

end Resources
