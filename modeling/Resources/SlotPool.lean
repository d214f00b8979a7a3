import Resources.Runs

/-!
# A pool of slots

The abstract picture of a bounded loader: jobs wait, at most `cap` of
them hold a slot, and a job that ends gives its slot back. `fill` hands
the free slots to waiting jobs; `release` ends one job and fills again.

The two facts a client needs are the bound (`run_held_le`) and that
filling is exhaustive (`fill_filled`): afterwards no job waits, or no
slot is free. A pool in which a job can end *without* `release` keeps
the bound and loses the slot.
-/

/-- How many jobs wait, how many hold a slot, and how many slots have been
given back. -/
@[ext] structure SlotPool where
  waiting : Nat
  held : Nat
  released : Nat
deriving Repr, DecidableEq

namespace SlotPool

/-- No job waits, or no slot is free. -/
def Filled (cap : Nat) (p : SlotPool) : Prop := p.waiting = 0 ∨ p.held = cap

def submit (k : Nat) (p : SlotPool) : SlotPool := { p with waiting := p.waiting + k }

def start (p : SlotPool) : SlotPool := { p with waiting := p.waiting - 1, held := p.held + 1 }

/-- Free slots go to waiting jobs, as many as there are of both. -/
def fill (cap : Nat) (p : SlotPool) : SlotPool :=
  { p with
    waiting := p.waiting - min (cap - p.held) p.waiting
    held := p.held + min (cap - p.held) p.waiting }

/-- One job ends: its slot is free, and filled again. -/
def release (cap : Nat) (p : SlotPool) : SlotPool :=
  fill cap { p with held := p.held - 1, released := p.released + 1 }

inductive Event where
  | submit (k : Nat)
  | fill
  | release
  /-- Something happened that the pool does not see. -/
  | idle

def step (cap : Nat) (p : SlotPool) : Event → Option SlotPool
  | .submit k => some (p.submit k)
  | .fill => some (p.fill cap)
  | .release => if 0 < p.held then some (p.release cap) else none
  | .idle => some p

/-! ## Filling -/

/-- Filling may be done one job at a time. -/
theorem fill_start {cap : Nat} {p : SlotPool} (hroom : p.held < cap) (hjob : 0 < p.waiting) :
    p.start.fill cap = p.fill cap := by
  ext
  · simp only [fill, start]; omega
  · simp only [fill, start]; omega
  · rfl

/-- Nothing is left to fill when the slots are taken or no job waits. -/
theorem fill_done {cap : Nat} {p : SlotPool} (h : ¬(p.held < cap ∧ 0 < p.waiting)) :
    p.fill cap = p := by
  ext
  · simp only [fill]; omega
  · simp only [fill]; omega
  · rfl

theorem fill_held_le {cap : Nat} {p : SlotPool} (h : p.held ≤ cap) : (p.fill cap).held ≤ cap := by
  simp only [fill]; omega

/-- Filling is exhaustive: no job waits afterwards, or no slot is free. -/
theorem fill_filled {cap : Nat} {p : SlotPool} (h : p.held ≤ cap) : (p.fill cap).Filled cap := by
  simp only [Filled, fill]; omega

theorem release_held_le {cap : Nat} {p : SlotPool} (h : p.held ≤ cap) :
    (p.release cap).held ≤ cap :=
  fill_held_le (Nat.le_trans (Nat.sub_le _ _) h)

theorem release_filled {cap : Nat} {p : SlotPool} (h : p.held ≤ cap) :
    (p.release cap).Filled cap :=
  fill_filled (Nat.le_trans (Nat.sub_le _ _) h)

/-! ## Runs -/

theorem step_held_le {cap : Nat} {p q : SlotPool} {e : Event} (h : p.held ≤ cap)
    (hstep : step cap p e = some q) : q.held ≤ cap := by
  cases e with
  | submit k =>
      obtain rfl := Option.some.inj hstep
      exact h
  | fill =>
      obtain rfl := Option.some.inj hstep
      exact fill_held_le h
  | release =>
      rw [step] at hstep
      split at hstep
      · obtain rfl := Option.some.inj hstep
        exact release_held_le h
      · cases hstep
  | idle =>
      obtain rfl := Option.some.inj hstep
      exact h

/-- **The bound.** However jobs come and go, at most `cap` hold a slot. -/
theorem run_held_le {cap : Nat} {p q : SlotPool} {es : List Event} (h : p.held ≤ cap)
    (hrun : Runs.run (step cap) p es = some q) : q.held ≤ cap :=
  Runs.run_invariant (fun p => p.held ≤ cap) (fun _ _ _ => step_held_le) h hrun

end SlotPool
