import Mathlib.Data.List.Nodup
import Mathlib.Data.List.Perm.Subperm
import Mathlib.Logic.Function.Basic
import Resources.Runs

/-!
# A doubly linked list

The nodes of a `LinkedList` are objects with two links, one function for
each field of the heap. `Follows` says of one of the two functions that it
leads along a list of nodes; `relink` is the one change that is ever made
to it, a link past some nodes. The two directions are the same rules, for
the list and for its reverse.

So the linked list does what a list does, whatever is called
(`does_as_list`).
-/

namespace LinkChain

variable {ρ : Type*} {next next' : ρ → Option ρ} {r : ρ} {rs pre mid post : List ρ}

/-- The function leads along the nodes in this order, and from the last one
nowhere. It says nothing of other nodes. -/
def Follows (next : ρ → Option ρ) : List ρ → Prop
  | [] => True
  | r :: rs => next r = rs.head? ∧ Follows next rs

theorem frame (h : Follows next rs) (hsame : ∀ r ∈ rs, next' r = next r) : Follows next' rs := by
  induction rs with
  | nil => trivial
  | cons r rs ih =>
      refine ⟨(hsame r List.mem_cons_self).trans h.1, ih h.2 ?_⟩
      exact fun a ha => hsame a (List.mem_cons_of_mem r ha)

theorem right (h : Follows next (pre ++ post)) : Follows next post := by
  induction pre with
  | nil => exact h
  | cons r pre ih => exact ih h.2

theorem link (h : Follows next (pre ++ r :: post)) : next r = post.head? := (right h).1

/-- The nodes that the links lead through from one on, at most as many as the
number says. -/
def walk (next : ρ → Option ρ) : ℕ → Option ρ → List ρ
  | 0, _ => []
  | _, none => []
  | n + 1, some r => r :: walk next n (next r)

theorem walk_eq (h : Follows next rs) {n : ℕ} (hn : rs.length ≤ n) : walk next n rs.head? = rs := by
  induction rs generalizing n with
  | nil => cases n <;> rfl
  | cons r rs ih =>
      cases n with
      | zero => exact absurd hn (Nat.not_succ_le_zero _)
      | succ n =>
          show r :: walk next n (next r) = r :: rs
          rw [h.1, ih h.2 (Nat.le_of_succ_le_succ hn)]

variable [DecidableEq ρ]

/-- The statement `if (r) r.next = link`, where the node may be null. -/
def relink (r link : Option ρ) (next : ρ → Option ρ) : ρ → Option ρ :=
  match r with
  | some r => Function.update next r link
  | none => next

theorem relink_of_ne {a : ρ} {r link : Option ρ} (h : r ≠ some a) :
    relink r link next a = next a := by
  cases r with
  | none => rfl
  | some r => exact Function.update_of_ne (fun ha => h (congrArg some ha.symm)) _ _

theorem relink_self {a : ρ} {link : Option ρ} : relink (some a) link next a = link :=
  Function.update_self _ _ _

/-- A link from the last node before to the first one after takes the nodes in
the middle out. This is the only change that `remove`, `pop` and `shift` make
to one direction. -/
theorem past (hnodup : (pre ++ post).Nodup) (hpre : Follows next (pre ++ mid))
    (hpost : Follows next post) : Follows (relink pre.getLast? post.head? next) (pre ++ post) := by
  induction pre with
  | nil => exact hpost
  | cons r pre ih =>
      obtain ⟨hr, hnodup'⟩ := List.nodup_cons.mp hnodup
      cases pre with
      | nil =>
          refine ⟨relink_self, frame hpost fun _ ha => relink_of_ne ?_⟩
          rintro ⟨⟩
          exact hr ha
      | cons s pre =>
          have hlast : (r :: s :: pre).getLast? = (s :: pre).getLast? := List.getLast?_cons_cons
          rw [hlast]
          refine ⟨(relink_of_ne fun heq => hr ?_).trans hpre.1, ih hnodup' hpre.2⟩
          exact List.mem_append_left _ (List.mem_of_getLast? heq)

/-- A new node in front, which links to the node that was the first. -/
theorem cons (h : Follows next rs) (hr : r ∉ rs) :
    Follows (Function.update next r rs.head?) (r :: rs) :=
  ⟨Function.update_self _ _ _, frame h fun _ ha =>
    Function.update_of_ne (ne_of_mem_of_not_mem ha hr) _ _⟩

/-- A new node behind: it links nowhere, and the node that was the last one
links to it. -/
theorem concat (h : Follows next rs) (hnodup : (rs ++ [r]).Nodup) :
    Follows (relink rs.getLast? (some r) (Function.update next r none)) (rs ++ [r]) := by
  have hr : r ∉ rs := fun hr => (List.nodup_append.mp hnodup).2.2 r hr r List.mem_cons_self rfl
  have hsame : Follows (Function.update next r none) (rs ++ []) := by
    rw [List.append_nil]
    exact frame h fun _ ha => Function.update_of_ne (ne_of_mem_of_not_mem ha hr) _ _
  have hpost : Follows (Function.update next r none) [r] := ⟨Function.update_self _ _ _, trivial⟩
  exact past hnodup hsame hpost

end LinkChain

namespace Resources

namespace LinkedList

open LinkChain

variable {α : Type*}

/-- The heap of a linked list, and its two ends. Nodes are numbers, in the
order in which they are created; `size` is how many there are, `data`, `prev`
and `next` are their fields. -/
structure State (α : Type*) where
  size : ℕ
  data : ℕ → Option α
  prev : ℕ → Option ℕ
  next : ℕ → Option ℕ
  _head : Option ℕ
  _tail : Option ℕ

def new : State α where
  size := 0
  data _ := none
  prev _ := none
  next _ := none
  _head := none
  _tail := none

namespace State

/-- An object `{ prev, next, data }`, which gets the next number. -/
def create (prev next : Option ℕ) (data : α) (s : State α) : State α :=
  { s with
    size := s.size + 1
    data := Function.update s.data s.size (some data)
    prev := Function.update s.prev s.size prev
    next := Function.update s.next s.size next }

def setPrev (node link : Option ℕ) (s : State α) : State α :=
  { s with prev := relink node link s.prev }

def setNext (node link : Option ℕ) (s : State α) : State α :=
  { s with next := relink node link s.next }

def hasElements (s : State α) : Bool := s._head.isSome

def clear (s : State α) : State α := { s with _head := none, _tail := none }

def push (key : α) (s : State α) : State α :=
  match s._tail with
  | some tail =>
      let node := s.size
      let s := (s.create (some tail) none key).setNext (some tail) (some node)
      let s := s.setPrev (s.next tail) (some tail)
      { s with _tail := s.next tail }
  | none =>
      let node := s.size
      { s.create none none key with _head := some node, _tail := some node }

def pop (s : State α) : Option α × State α :=
  match s._tail with
  | some tail =>
      let ret := s.data tail
      let s := { s with _tail := s.prev tail }
      (ret, if s._tail.isSome then s.setNext s._tail none else { s with _head := none })
  | none => (none, s)

def unshift (key : α) (s : State α) : State α :=
  match s._head with
  | some head =>
      let node := s.size
      let s := (s.create none (some head) key).setPrev (some head) (some node)
      let s := s.setNext (s.prev head) (some head)
      { s with _head := s.prev head }
  | none =>
      let node := s.size
      { s.create none none key with _head := some node, _tail := some node }

def shift (s : State α) : Option α × State α :=
  match s._head with
  | some head =>
      let ret := s.data head
      let s := { s with _head := s.next head }
      (ret, if s._head.isSome then s.setPrev s._head none else { s with _tail := none })
  | none => (none, s)

/-- What `remove` does with the node that it has found. The node itself keeps
its links. -/
def unlink (node : ℕ) (s : State α) : State α :=
  let s := s.setNext (s.prev node) (s.next node)
  let s := s.setPrev (s.next node) (s.prev node)
  let s := if s._head = some node then { s with _head := s.next node } else s
  if s._tail = some node then { s with _tail := s.prev node } else s

/-- The loop of `remove`. The first argument bounds how many nodes it may look
at; there are never more in the list than there are nodes at all
(`Nodes.length_le`). -/
def removeFrom [DecidableEq α] : ℕ → Option ℕ → α → State α → State α
  | 0, _, _, s => s
  | _, none, _, s => s
  | nodes + 1, some node, key, s =>
      if s.data node = some key then s.unlink node
      else removeFrom nodes (s.next node) key s

def remove [DecidableEq α] (key : α) (s : State α) : State α := removeFrom s.size s._head key s

/-- What is in the list, read from its head along `next`. The source has no
such method; it is what a user of the list gets by shifting. -/
def toList (s : State α) : List α := (walk s.next s.size s._head).filterMap s.data

def toListBack (s : State α) : List α := (walk s.prev s.size s._tail).filterMap s.data

/-- The same list the other way round, with the two fields and the two ends
exchanged. `unshift` and `shift` are `push` and `pop` of this. -/
def flip (s : State α) : State α :=
  { s with prev := s.next, next := s.prev, _head := s._tail, _tail := s._head }

end State

inductive Call (α : Type*) where
  | push (key : α)
  | unshift (key : α)
  | pop
  | shift
  | remove (key : α)
  | clear
  | hasElements

/-- What a call returns: a key or null, or whether there are elements. -/
inductive Result (α : Type*) where
  | value (key : Option α)
  | flag (val : Bool)

/-- One call, and what it returns is noted after all that was returned before.
-/
def step [DecidableEq α] (s : State α × List (Result α)) : Call α → State α × List (Result α)
  | .push key => (s.1.push key, s.2)
  | .unshift key => (s.1.unshift key, s.2)
  | .pop => (s.1.pop.2, s.2 ++ [.value s.1.pop.1])
  | .shift => (s.1.shift.2, s.2 ++ [.value s.1.shift.1])
  | .remove key => (s.1.remove key, s.2)
  | .clear => (s.1.clear, s.2)
  | .hasElements => (s.1, s.2 ++ [.flag s.1.hasElements])

/-- The same call of a plain list, which is what the linked list is for. -/
def listStep [DecidableEq α] (l : List α × List (Result α)) : Call α → List α × List (Result α)
  | .push key => (l.1 ++ [key], l.2)
  | .unshift key => (key :: l.1, l.2)
  | .pop => (l.1.dropLast, l.2 ++ [.value l.1.getLast?])
  | .shift => (l.1.tail, l.2 ++ [.value l.1.head?])
  | .remove key => (l.1.erase key, l.2)
  | .clear => ([], l.2)
  | .hasElements => (l.1, l.2 ++ [.flag (!l.1.isEmpty)])

/-! ## The nodes of a list -/

/-- The heap has exactly these nodes in the list, in this order: both ends and
both directions are theirs, and they all have data. -/
structure Nodes (s : State α) (rs : List ℕ) : Prop where
  nodup : rs.Nodup
  fresh : ∀ r ∈ rs, r < s.size
  head : s._head = rs.head?
  tail : s._tail = rs.getLast?
  next : Follows s.next rs
  prev : Follows s.prev rs.reverse
  data : ∀ r ∈ rs, (s.data r).isSome

variable {s t : State α} {rs pre post : List ℕ} {r : ℕ} {key : α}

namespace Nodes

theorem length_le (h : Nodes s rs) : rs.length ≤ s.size := by
  have hsub : rs ⊆ List.range s.size := fun r hr => List.mem_range.mpr (h.fresh r hr)
  have hle := (h.nodup.subperm hsub).length_le
  rwa [List.length_range] at hle

theorem toList_eq (h : Nodes s rs) : s.toList = rs.filterMap s.data := by
  unfold State.toList
  rw [h.head, walk_eq h.next h.length_le]

theorem toListBack_eq (h : Nodes s rs) : s.toListBack = (rs.filterMap s.data).reverse := by
  unfold State.toListBack
  have hlength : rs.reverse.length ≤ s.size := by
    rw [List.length_reverse]
    exact h.length_le
  rw [h.tail, ← List.head?_reverse, walk_eq h.prev hlength, List.filterMap_reverse]

theorem flip (h : Nodes s rs) : Nodes s.flip rs.reverse := by
  refine ⟨List.nodup_reverse.mpr h.nodup, ?_, ?_, ?_, h.prev, ?_, ?_⟩
  · exact fun r hr => h.fresh r (List.mem_reverse.mp hr)
  · rw [List.head?_reverse]
    exact h.tail
  · rw [List.getLast?_reverse]
    exact h.head
  · rw [List.reverse_reverse]
    exact h.next
  · exact fun r hr => h.data r (List.mem_reverse.mp hr)

end Nodes

/-! ## At the ends -/

theorem push_eq (key : α) (s : State α) : s.push key =
    { size := s.size + 1
      data := Function.update s.data s.size (some key)
      prev := Function.update s.prev s.size s._tail
      next := relink s._tail (some s.size) (Function.update s.next s.size none)
      _head := if s._tail.isSome then s._head else some s.size
      _tail := some s.size } := by
  unfold State.push
  cases s._tail with
  | none => rfl
  | some tail =>
      have hnext : ((s.create (some tail) none key).setNext (some tail) (some s.size)).next tail =
          some s.size := relink_self
      have hprev : relink (some s.size) (some tail) (Function.update s.prev s.size (some tail)) =
          Function.update s.prev s.size (some tail) := Function.update_idem _ _ _
      simp only
      rw [hnext]
      unfold State.setPrev State.setNext State.create
      simp only
      rw [hprev, relink_self]
      rfl

/-- `unshift` is written as `push` with the directions exchanged. -/
theorem unshift_flip (key : α) (s : State α) : s.unshift key = (s.flip.push key).flip := by
  have hflip : s.flip._tail = s._head := rfl
  unfold State.unshift State.push
  rw [hflip]
  cases s._head <;> rfl

theorem shift_flip (s : State α) : s.shift = (s.flip.pop.1, s.flip.pop.2.flip) := by
  have hflip : s.flip._tail = s._head := rfl
  unfold State.shift State.pop
  rw [hflip]
  cases s._head with
  | none => rfl
  | some head =>
      have hnext : s.flip.prev head = s.next head := rfl
      simp only
      rw [hnext]
      split <;> rfl

namespace Nodes

theorem push (h : Nodes s rs) (key : α) : Nodes (s.push key) (rs ++ [s.size]) := by
  have hnew : s.size ∉ rs := fun hr => Nat.lt_irrefl _ (h.fresh _ hr)
  have hnodup : (rs ++ [s.size]).Nodup := by
    rw [List.nodup_append]
    refine ⟨h.nodup, List.nodup_singleton _, ?_⟩
    rintro a ha b hb rfl
    exact hnew (List.mem_singleton.mp hb ▸ ha)
  rw [push_eq]
  refine ⟨hnodup, ?_, ?_, ?_, ?_, ?_, ?_⟩
  · intro r hr
    rcases List.mem_append.mp hr with hr | hr
    · exact Nat.lt_succ_of_lt (h.fresh r hr)
    · rw [List.mem_singleton.mp hr]
      exact Nat.lt_succ_self _
  · show (if s._tail.isSome then s._head else some s.size) = _
    rw [h.tail, h.head]
    cases rs with
    | nil => rfl
    | cons r rs => rfl
  · exact List.getLast?_concat.symm
  · rw [h.tail]
    exact concat h.next hnodup
  · rw [h.tail, List.reverse_append, ← List.head?_reverse]
    exact cons h.prev fun hr => hnew (List.mem_reverse.mp hr)
  · intro r hr
    show (Function.update s.data s.size (some key) r).isSome
    by_cases hne : r = s.size
    · rw [hne, Function.update_self]
      rfl
    · rw [Function.update_of_ne hne]
      rcases List.mem_append.mp hr with hr | hr
      · exact h.data r hr
      · exact absurd (List.mem_singleton.mp hr) hne

theorem pop_nil (h : Nodes s []) : s.pop = (none, s) := by
  unfold State.pop
  rw [h.tail]
  rfl

theorem pop_concat (h : Nodes s (rs ++ [r])) : s.pop =
    (s.data r, { s with
      next := relink rs.getLast? none s.next
      _head := if rs.getLast?.isSome then s._head else none
      _tail := rs.getLast? }) := by
  have hback : Follows s.prev (r :: rs.reverse) := by
    have hprev := h.prev
    rwa [List.reverse_append] at hprev
  have hlast : s.prev r = rs.getLast? := hback.1.trans List.head?_reverse
  unfold State.pop
  rw [h.tail, List.getLast?_concat]
  simp only
  rw [hlast]
  cases rs.getLast? <;> rfl

theorem pop (h : Nodes s (rs ++ [r])) : Nodes s.pop.2 rs := by
  have hback : Follows s.prev (r :: rs.reverse) := by
    have hprev := h.prev
    rwa [List.reverse_append] at hprev
  have hnodup : (rs ++ []).Nodup := by
    rw [List.append_nil]
    exact (List.nodup_append.mp h.nodup).1
  have hpost : Follows s.next [] := trivial
  have hpast := past hnodup h.next hpost
  rw [List.append_nil] at hnodup hpast
  rw [pop_concat h]
  refine ⟨hnodup, ?_, ?_, rfl, hpast, hback.2, ?_⟩
  · exact fun a ha => h.fresh a (List.mem_append_left _ ha)
  · show (if rs.getLast?.isSome then s._head else none) = rs.head?
    rw [h.head]
    cases rs with
    | nil => rfl
    | cons a rs =>
        rw [if_pos (List.getLast?_isSome.mpr (List.cons_ne_nil a rs))]
        rfl
  · exact fun a ha => h.data a (List.mem_append_left _ ha)

end Nodes

/-! ## Anywhere -/

theorem unlink_eq (node : ℕ) (s : State α) : s.unlink node = { s with
    next := relink (s.prev node) (s.next node) s.next
    prev := relink (relink (s.prev node) (s.next node) s.next node) (s.prev node) s.prev
    _head := if s._head = some node then relink (s.prev node) (s.next node) s.next node
      else s._head
    _tail := if s._tail = some node then
        relink (relink (s.prev node) (s.next node) s.next node) (s.prev node) s.prev node
      else s._tail } := by
  unfold State.unlink
  by_cases hhead : s._head = some node <;> by_cases htail : s._tail = some node <;>
    simp [State.setNext, State.setPrev, hhead, htail]

theorem Nodes.unlink (h : Nodes s (pre ++ r :: post)) : Nodes (s.unlink r) (pre ++ post) := by
  have hsub : (pre ++ post).Sublist (pre ++ r :: post) :=
    (List.sublist_cons_self r post).append_left pre
  have hnodup := h.nodup.sublist hsub
  obtain ⟨-, hpost, hdisjoint⟩ := List.nodup_append.mp h.nodup
  have hprev : Follows s.prev (post.reverse ++ r :: pre.reverse) := by
    have hback := h.prev
    rwa [List.reverse_append, List.reverse_cons, List.append_assoc] at hback
  have hp : s.prev r = pre.getLast? := (link hprev).trans List.head?_reverse
  have hn : s.next r = post.head? := link h.next
  have hpre : pre.getLast? ≠ some r := fun hlast =>
    hdisjoint r (List.mem_of_getLast? hlast) r List.mem_cons_self rfl
  have hfirst : post.head? ≠ some r := fun hhead =>
    (List.nodup_cons.mp hpost).1 (List.mem_of_head? hhead)
  rw [unlink_eq, hp, hn, relink_of_ne hpre, hn, relink_of_ne hfirst, hp]
  refine ⟨hnodup, fun a ha => h.fresh a (hsub.mem ha), ?_, ?_, ?_, ?_,
    fun a ha => h.data a (hsub.mem ha)⟩
  · show (if s._head = some r then post.head? else s._head) = (pre ++ post).head?
    rw [h.head]
    cases pre with
    | nil => exact if_pos rfl
    | cons a pre =>
        refine if_neg fun heq => ?_
        exact hdisjoint a List.mem_cons_self r List.mem_cons_self (Option.some.inj heq)
  · show (if s._tail = some r then pre.getLast? else s._tail) = (pre ++ post).getLast?
    rw [h.tail, List.getLast?_append, List.getLast?_append]
    cases post with
    | nil => exact if_pos rfl
    | cons b post =>
        rw [List.getLast?_cons_cons]
        refine if_neg fun heq => ?_
        cases hlast : (b :: post).getLast? with
        | none => exact List.cons_ne_nil b post (List.getLast?_eq_none_iff.mp hlast)
        | some c =>
            rw [hlast, Option.some_or] at heq
            obtain rfl := Option.some.inj heq
            exact (List.nodup_cons.mp hpost).1 (List.mem_of_getLast? hlast)
  · have hnext : Follows s.next ((pre ++ [r]) ++ post) := by
      rw [List.append_assoc]
      exact h.next
    exact past hnodup h.next (right hnext)
  · have hback : (post.reverse ++ pre.reverse).Nodup := by
      rw [← List.reverse_append]
      exact List.nodup_reverse.mpr hnodup
    have hafter : Follows s.prev ((post.reverse ++ [r]) ++ pre.reverse) := by
      rw [List.append_assoc]
      exact hprev
    have hpast := past hback hprev (right hafter)
    rwa [List.getLast?_reverse, List.head?_reverse, ← List.reverse_append] at hpast

theorem unlink_data (node : ℕ) (s : State α) : (s.unlink node).data = s.data := by
  rw [unlink_eq]

/-- The loop takes away the first node with the key from where it stands, and
nothing if there is none. -/
theorem Nodes.removeFrom [DecidableEq α] (key : α) (post : List ℕ) : ∀ (pre : List ℕ) (nodes : ℕ),
    Nodes s (pre ++ post) → post.length ≤ nodes →
    Nodes (State.removeFrom nodes post.head? key s)
        (pre ++ post.eraseP fun r => s.data r = some key) ∧
      (State.removeFrom nodes post.head? key s).data = s.data := by
  induction post with
  | nil =>
      intro pre nodes h _
      have hsame : State.removeFrom nodes none key s = s := by
        cases nodes <;> rfl
      rw [List.head?_nil, hsame]
      exact ⟨h, rfl⟩
  | cons r post ih =>
      intro pre nodes h hlength
      cases nodes with
      | zero => exact absurd hlength (Nat.not_succ_le_zero _)
      | succ nodes =>
          rw [List.head?_cons, State.removeFrom]
          by_cases hkey : s.data r = some key
          · have herase : ((r :: post).eraseP fun r => s.data r = some key) = post :=
              List.eraseP_cons_of_pos (decide_eq_true hkey)
            rw [if_pos hkey, herase]
            exact ⟨h.unlink, unlink_data r s⟩
          · have herase : ((r :: post).eraseP fun r => s.data r = some key) =
                r :: post.eraseP fun r => s.data r = some key :=
              List.eraseP_cons_of_neg fun hyes => hkey (of_decide_eq_true hyes)
            have hpre : pre ++ r :: post = (pre ++ [r]) ++ post := by
              rw [List.append_assoc]
              rfl
            rw [if_neg hkey, herase, link h.next]
            obtain ⟨hnodes, hdata⟩ :=
              ih (pre ++ [r]) nodes (hpre ▸ h) (Nat.le_of_succ_le_succ hlength)
            refine ⟨?_, hdata⟩
            rw [List.append_assoc] at hnodes
            exact hnodes

theorem filterMap_eraseP [DecidableEq α] (data : ℕ → Option α) (key : α)
    (hdata : ∀ r ∈ rs, (data r).isSome) :
    (rs.eraseP fun r => data r = some key).filterMap data = (rs.filterMap data).erase key := by
  induction rs with
  | nil => rfl
  | cons r rs ih =>
      obtain ⟨x, hx⟩ := Option.isSome_iff_exists.mp (hdata r List.mem_cons_self)
      rw [List.filterMap_cons_some hx]
      by_cases hkey : x = key
      · have herase : ((r :: rs).eraseP fun r => data r = some key) = rs :=
          List.eraseP_cons_of_pos (decide_eq_true (hx.trans (congrArg some hkey)))
        rw [herase, hkey, List.erase_cons_head]
      · have hne : ¬data r = some key := fun heq => hkey (Option.some.inj (hx.symm.trans heq))
        have herase : ((r :: rs).eraseP fun r => data r = some key) =
            r :: rs.eraseP fun r => data r = some key :=
          List.eraseP_cons_of_neg fun hyes => hne (of_decide_eq_true hyes)
        rw [herase, List.filterMap_cons_some hx, List.erase_cons_tail (by simpa using hkey), ih]
        exact fun a ha => hdata a (List.mem_cons_of_mem r ha)

/-! ## Every call -/

/-- The nodes in the list have the elements of `l`, in this order. -/
def Represents (s : State α) (l : List α) : Prop := ∃ rs, Nodes s rs ∧ rs.filterMap s.data = l

variable {l : List α}

theorem represents_new : Represents (new : State α) [] :=
  ⟨[], ⟨List.nodup_nil, nofun, rfl, rfl, trivial, trivial, nofun⟩, rfl⟩

theorem Represents.push (h : Represents s l) (key : α) : Represents (s.push key) (l ++ [key]) := by
  obtain ⟨rs, hnodes, rfl⟩ := h
  refine ⟨rs ++ [s.size], hnodes.push key, ?_⟩
  have hdata : (s.push key).data = Function.update s.data s.size (some key) := by
    rw [push_eq]
  have hsame : rs.filterMap (Function.update s.data s.size (some key)) = rs.filterMap s.data := by
    refine List.filterMap_congr fun r hr => ?_
    exact Function.update_of_ne (Nat.ne_of_lt (hnodes.fresh r hr)) _ _
  rw [hdata, List.filterMap_append, hsame, List.filterMap_cons_some (Function.update_self _ _ _)]
  rfl

/-- The last element is returned, and it is gone from the list. An empty list
stays empty. -/
theorem Represents.pop (h : Represents s l) :
    s.pop.1 = l.getLast? ∧ Represents s.pop.2 l.dropLast := by
  obtain ⟨rs, hnodes, rfl⟩ := h
  rcases List.eq_nil_or_concat' rs with rfl | ⟨rs, r, rfl⟩
  · rw [hnodes.pop_nil]
    exact ⟨rfl, [], hnodes, rfl⟩
  · have hpop := hnodes.pop
    obtain ⟨x, hx⟩ := Option.isSome_iff_exists.mp
      (hnodes.data r (List.mem_append_right _ List.mem_cons_self))
    rw [hnodes.pop_concat] at hpop ⊢
    rw [List.filterMap_append, List.filterMap_cons_some hx, List.filterMap_nil,
      List.getLast?_concat, List.dropLast_concat]
    exact ⟨hx, rs, hpop, rfl⟩

theorem Represents.flip (h : Represents s l) : Represents s.flip l.reverse := by
  obtain ⟨rs, hnodes, rfl⟩ := h
  exact ⟨rs.reverse, hnodes.flip, List.filterMap_reverse⟩

theorem Represents.unshift (h : Represents s l) (key : α) :
    Represents (s.unshift key) (key :: l) := by
  have hpush := (h.flip.push key).flip
  rw [List.reverse_append, List.reverse_reverse] at hpush
  rw [unshift_flip]
  exact hpush

theorem Represents.shift (h : Represents s l) :
    s.shift.1 = l.head? ∧ Represents s.shift.2 l.tail := by
  obtain ⟨hret, hpop⟩ := h.flip.pop
  rw [shift_flip]
  refine ⟨hret.trans List.getLast?_reverse, ?_⟩
  have hback := hpop.flip
  rwa [List.dropLast_reverse, List.reverse_reverse] at hback

theorem Represents.remove [DecidableEq α] (h : Represents s l) (key : α) :
    Represents (s.remove key) (l.erase key) := by
  obtain ⟨rs, hnodes, rfl⟩ := h
  obtain ⟨hremove, hdata⟩ := hnodes.removeFrom key rs [] s.size hnodes.length_le
  unfold State.remove
  rw [hnodes.head]
  refine ⟨_, hremove, ?_⟩
  rw [hdata]
  exact filterMap_eraseP s.data key hnodes.data

theorem Represents.clear (h : Represents s l) : Represents s.clear [] := by
  obtain ⟨rs, hnodes, -⟩ := h
  exact ⟨[], ⟨List.nodup_nil, nofun, rfl, rfl, trivial, trivial, nofun⟩, rfl⟩

theorem Represents.hasElements (h : Represents s l) : s.hasElements = !l.isEmpty := by
  obtain ⟨rs, hnodes, rfl⟩ := h
  unfold State.hasElements
  rw [hnodes.head]
  cases rs with
  | nil => rfl
  | cons r rs =>
      obtain ⟨x, hx⟩ := Option.isSome_iff_exists.mp (hnodes.data r List.mem_cons_self)
      rw [List.filterMap_cons_some hx]
      rfl

/-- Every call does to the linked list what it does to the list, and returns
the same. -/
theorem represents_step [DecidableEq α] {s : State α × List (Result α)}
    {l : List α × List (Result α)} (h : Represents s.1 l.1) (hout : s.2 = l.2) (c : Call α) :
    Represents (step s c).1 (listStep l c).1 ∧ (step s c).2 = (listStep l c).2 := by
  cases c with
  | push key => exact ⟨h.push key, hout⟩
  | unshift key => exact ⟨h.unshift key, hout⟩
  | pop =>
      refine ⟨h.pop.2, ?_⟩
      show s.2 ++ [.value s.1.pop.1] = l.2 ++ [.value l.1.getLast?]
      rw [hout, h.pop.1]
  | shift =>
      refine ⟨h.shift.2, ?_⟩
      show s.2 ++ [.value s.1.shift.1] = l.2 ++ [.value l.1.head?]
      rw [hout, h.shift.1]
  | remove key => exact ⟨h.remove key, hout⟩
  | clear => exact ⟨h.clear, hout⟩
  | hasElements =>
      refine ⟨h, ?_⟩
      show s.2 ++ [.flag s.1.hasElements] = l.2 ++ [.flag !l.1.isEmpty]
      rw [hout, h.hasElements]

theorem Represents.toList_eq (h : Represents s l) : s.toList = l := by
  obtain ⟨rs, hnodes, rfl⟩ := h
  exact hnodes.toList_eq

theorem Represents.length_le (h : Represents s l) : l.length ≤ s.size := by
  obtain ⟨rs, hnodes, rfl⟩ := h
  exact Nat.le_trans (List.length_filterMap_le _ _) hnodes.length_le

/-- **The linked list does what a list does**, whatever is called: it
returns the same, and has the same elements, from its head and from its
tail. -/
theorem does_as_list [DecidableEq α] (calls : List (Call α)) :
    (calls.foldl step (new, [])).2 = (calls.foldl listStep ([], [])).2 ∧
      (calls.foldl step (new, [])).1.toList = (calls.foldl listStep ([], [])).1 ∧
      (calls.foldl step (new, [])).1.toListBack = (calls.foldl listStep ([], [])).1.reverse := by
  have h : Represents (calls.foldl step ((new : State α), [])).1 (calls.foldl listStep ([], [])).1 ∧
      (calls.foldl step ((new : State α), [])).2 = (calls.foldl listStep ([], [])).2 := by
    refine List.foldl_rel (r := fun (s : State α × List (Result α))
      (l : List α × List (Result α)) => Represents s.1 l.1 ∧ s.2 = l.2) ⟨represents_new, rfl⟩ ?_
    exact fun c _ s l hs => represents_step hs.1 hs.2 c
  obtain ⟨⟨rs, hnodes, hl⟩, hout⟩ := h
  refine ⟨hout, ?_, ?_⟩
  · rw [hnodes.toList_eq, hl]
  · rw [hnodes.toListBack_eq, hl]

end LinkedList

end Resources
