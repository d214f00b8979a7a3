import Mathlib.Data.List.Nodup

/-!
# Controls, their parents, and messages between them

The part of a document tree that a form's validation works on, as first
children and next siblings: controls, elements with attributes and
children, and *messages*, the paragraphs that a script inserts and takes
away again. Text is left out.

The operations are those of a DOM library: insert a message after a
control, remove the messages below a node, change attributes below a
node, each of them at the parent of a control. None of them changes the
`Arrangement` of the controls, so what depends on the arrangement alone
(the order of the controls, and which of them stand below another's
parent) stays as it was. What an operation does to the messages that
follow a control is one lemma for each: `following_after` and
`following_removeAtParent`.
-/

namespace Dom

universe u v

variable {φ : Type u} {α : Type v}

/-! ## Arrangements -/

/-- Which controls stand below which elements, and in which order. Messages and
attributes are left out of it. -/
inductive Arrangement (φ : Type u) where
  | nil
  | control (f : φ) (next : Arrangement φ)
  | element (kids next : Arrangement φ)
deriving Repr, DecidableEq

namespace Arrangement

/-- All controls, in document order. -/
def controls : Arrangement φ → List φ
  | nil => []
  | control f next => f :: next.controls
  | element kids next => kids.controls ++ next.controls

/-- The controls that are not below an element. -/
def children : Arrangement φ → List φ
  | nil => []
  | control f next => f :: next.children
  | element _ next => next.children

/-- The controls below the parent of `f`. -/
def scope [DecidableEq φ] (f : φ) : Arrangement φ → List φ
  | nil => []
  | control _ next => next.scope f
  | element kids next =>
      if f ∈ kids.children then kids.controls else kids.scope f ++ next.scope f

/-- No control occurs twice, and each one has a parent. -/
structure Placed (a : Arrangement φ) : Prop where
  nodup : a.controls.Nodup
  inside : a.children = []

theorem children_subset : ∀ {a : Arrangement φ} {f : φ}, f ∈ a.children → f ∈ a.controls
  | nil, _, h => h
  | control g next, f, h => by
      rcases List.mem_cons.mp h with rfl | h
      · exact List.mem_cons_self
      · exact List.mem_cons_of_mem _ (children_subset h)
  | element _ next, f, h => List.mem_append_right _ (children_subset (a := next) h)

variable [DecidableEq φ]

theorem scope_subset {f g : φ} : ∀ {a : Arrangement φ}, g ∈ a.scope f → g ∈ a.controls
  | nil, h => h
  | control _ next, h => List.mem_cons_of_mem _ (scope_subset (a := next) h)
  | element kids next, h => by
      rw [scope] at h
      rw [controls, List.mem_append]
      split at h
      · exact Or.inl h
      · exact (List.mem_append.mp h).imp scope_subset scope_subset

/-- A control that has a parent is below it. -/
theorem self_mem_scope {f : φ} : ∀ {a : Arrangement φ}, f ∈ a.controls → f ∉ a.children →
    f ∈ a.scope f
  | nil, h, _ => h
  | control g next, h, hc => by
      rw [children, List.mem_cons, not_or] at hc
      exact self_mem_scope (a := next) ((List.mem_cons.mp h).resolve_left hc.1) hc.2
  | element kids next, h, hc => by
      rw [scope]
      split
      · next hkids => exact children_subset hkids
      · next hkids =>
          rw [List.mem_append]
          exact (List.mem_append.mp h).imp (fun h => self_mem_scope h hkids)
            fun h => self_mem_scope h hc

end Arrangement

/-! ## Trees -/

/-- A list of sibling nodes, as the first one and what comes after it:
messages, controls, and elements with attributes and children. -/
inductive Forest (φ : Type u) (α : Type v) where
  | nil
  | control (f : φ) (next : Forest φ α)
  | message (text : String) (next : Forest φ α)
  | element (attrs : α) (kids next : Forest φ α)
deriving Repr, DecidableEq

namespace Forest

def arrangement : Forest φ α → Arrangement φ
  | nil => .nil
  | control f next => .control f next.arrangement
  | message _ next => next.arrangement
  | element _ kids next => .element kids.arrangement next.arrangement

/-- The messages before the first other node. -/
def leading : Forest φ α → List String
  | message text next => text :: next.leading
  | _ => []

/-- Remove all messages, at any depth. -/
def removeMessages : Forest φ α → Forest φ α
  | nil => nil
  | control f next => control f next.removeMessages
  | message _ next => next.removeMessages
  | element attrs kids next => element attrs kids.removeMessages next.removeMessages

/-- Change the attributes of all elements, at any depth. -/
def mapAttrs (g : α → α) : Forest φ α → Forest φ α
  | nil => nil
  | control f next => control f (next.mapAttrs g)
  | message text next => message text (next.mapAttrs g)
  | element attrs kids next => element (g attrs) (kids.mapAttrs g) (next.mapAttrs g)

@[simp] theorem arrangement_removeMessages : ∀ d : Forest φ α,
    d.removeMessages.arrangement = d.arrangement
  | nil => rfl
  | control f next => by rw [removeMessages, arrangement, arrangement_removeMessages, arrangement]
  | message _ next => by rw [removeMessages, arrangement_removeMessages, arrangement]
  | element _ kids next => by
      rw [removeMessages, arrangement, arrangement_removeMessages, arrangement_removeMessages,
        arrangement]

@[simp] theorem arrangement_mapAttrs (g : α → α) : ∀ d : Forest φ α,
    (d.mapAttrs g).arrangement = d.arrangement
  | nil => rfl
  | control f next => by rw [mapAttrs, arrangement, arrangement_mapAttrs, arrangement]
  | message _ next => by rw [mapAttrs, arrangement, arrangement_mapAttrs, arrangement]
  | element _ kids next => by
      rw [mapAttrs, arrangement, arrangement_mapAttrs, arrangement_mapAttrs, arrangement]

@[simp] theorem leading_removeMessages : ∀ d : Forest φ α, d.removeMessages.leading = []
  | nil => rfl
  | control _ _ => rfl
  | message _ next => by rw [removeMessages, leading_removeMessages]
  | element _ _ _ => rfl

@[simp] theorem leading_mapAttrs (g : α → α) : ∀ d : Forest φ α,
    (d.mapAttrs g).leading = d.leading
  | nil => rfl
  | control _ _ => rfl
  | message _ next => by rw [mapAttrs, leading, leading, leading_mapAttrs]
  | element _ _ _ => rfl

/-! ## Operations at a control -/

variable [DecidableEq φ]

/-- The messages that directly follow the control `f`. -/
def following (f : φ) : Forest φ α → List String
  | nil => []
  | control g next => if g = f then next.leading else next.following f
  | message _ next => next.following f
  | element _ kids next => kids.following f ++ next.following f

/-- Insert a message after the control `f`. -/
def after (f : φ) (text : String) : Forest φ α → Forest φ α
  | nil => nil
  | control g next =>
      if g = f then control g (message text next) else control g (next.after f text)
  | message t next => message t (next.after f text)
  | element attrs kids next => element attrs (kids.after f text) (next.after f text)

/-- Change the parent of `f`, which is an element with attributes and children.
Without a parent nothing changes. -/
def atParent (f : φ) (op : α → Forest φ α → α × Forest φ α) : Forest φ α → Forest φ α
  | nil => nil
  | control g next => control g (next.atParent f op)
  | message t next => message t (next.atParent f op)
  | element attrs kids next =>
      if f ∈ kids.arrangement.children then
        element (op attrs kids).1 (op attrs kids).2 next
      else element attrs (kids.atParent f op) (next.atParent f op)

/-! ## The arrangement stays as it is -/

@[simp] theorem arrangement_after (f : φ) (text : String) : ∀ d : Forest φ α,
    (d.after f text).arrangement = d.arrangement
  | nil => rfl
  | control g next => by
      rw [after]
      split
      · rfl
      · rw [arrangement, arrangement_after, arrangement]
  | message _ next => by rw [after, arrangement, arrangement_after, arrangement]
  | element _ kids next => by
      rw [after, arrangement, arrangement_after, arrangement_after, arrangement]

theorem arrangement_atParent {f : φ} {op : α → Forest φ α → α × Forest φ α}
    (hop : ∀ attrs kids, (op attrs kids).2.arrangement = kids.arrangement) : ∀ d : Forest φ α,
    (d.atParent f op).arrangement = d.arrangement
  | nil => rfl
  | control g next => by rw [atParent, arrangement, arrangement_atParent hop, arrangement]
  | message _ next => by rw [atParent, arrangement, arrangement_atParent hop, arrangement]
  | element attrs kids next => by
      rw [atParent]
      split
      · rw [arrangement, hop, arrangement]
      · rw [arrangement, arrangement_atParent hop, arrangement_atParent hop, arrangement]

/-! ## What follows a control -/

theorem following_of_not_mem {g : φ} : ∀ {d : Forest φ α}, g ∉ d.arrangement.controls →
    d.following g = []
  | nil, _ => rfl
  | control f next, h => by
      rw [arrangement, Arrangement.controls, List.mem_cons, not_or] at h
      rw [following, if_neg (Ne.symm h.1), following_of_not_mem h.2]
  | message _ next, h => by
      rw [following]
      exact following_of_not_mem (d := next) h
  | element _ kids next, h => by
      rw [arrangement, Arrangement.controls, List.mem_append, not_or] at h
      rw [following, following_of_not_mem h.1, following_of_not_mem h.2, List.append_nil]

@[simp] theorem following_removeMessages (g : φ) : ∀ d : Forest φ α,
    d.removeMessages.following g = []
  | nil => rfl
  | control f next => by
      rw [removeMessages, following, following_removeMessages, leading_removeMessages, ite_self]
  | message _ next => by rw [removeMessages, following_removeMessages]
  | element _ kids next => by
      rw [removeMessages, following, following_removeMessages, following_removeMessages,
        List.append_nil]

@[simp] theorem following_mapAttrs (h : α → α) (g : φ) : ∀ d : Forest φ α,
    (d.mapAttrs h).following g = d.following g
  | nil => rfl
  | control f next => by
      rw [mapAttrs, following, following_mapAttrs, leading_mapAttrs, following]
  | message _ next => by rw [mapAttrs, following, following_mapAttrs, following]
  | element _ kids next => by
      rw [mapAttrs, following, following_mapAttrs, following_mapAttrs, following]

@[simp] theorem leading_after (f : φ) (text : String) : ∀ d : Forest φ α,
    (d.after f text).leading = d.leading
  | nil => rfl
  | control g next => by
      rw [after]
      split <;> rfl
  | message _ next => by rw [after, leading, leading, leading_after]
  | element _ _ _ => rfl

@[simp] theorem leading_atParent (f : φ) (op : α → Forest φ α → α × Forest φ α) :
    ∀ d : Forest φ α, (d.atParent f op).leading = d.leading
  | nil => rfl
  | control _ _ => rfl
  | message _ next => by rw [atParent, leading, leading, leading_atParent]
  | element _ _ _ => by
      rw [atParent]
      split <;> rfl

/-- A message inserted after one control follows no other. -/
theorem following_after_ne {f g : φ} (hne : g ≠ f) (text : String) : ∀ d : Forest φ α,
    (d.after f text).following g = d.following g
  | nil => rfl
  | control h next => by
      rw [after]
      split
      · next hf =>
          rw [following, following, if_neg (fun heq => hne (heq.symm.trans hf)),
            if_neg (fun heq => hne (heq.symm.trans hf)), following]
      · rw [following, leading_after, following_after_ne hne, following]
  | message _ next => by rw [after, following, following_after_ne hne, following]
  | element _ kids next => by
      rw [after, following, following_after_ne hne, following_after_ne hne, following]

/-- A message inserted after a control is the first one that follows it. -/
theorem following_after {f : φ} (text : String) : ∀ {d : Forest φ α},
    d.arrangement.controls.Nodup → f ∈ d.arrangement.controls →
    (d.after f text).following f = text :: d.following f
  | control g next, hnd, hf => by
      rw [arrangement, Arrangement.controls, List.nodup_cons] at hnd
      rw [after, following]
      by_cases hg : g = f
      · rw [if_pos hg, if_pos hg, following, if_pos hg, leading]
      · have hnext := (List.mem_cons.mp hf).resolve_left (Ne.symm hg)
        rw [if_neg hg, if_neg hg, following, if_neg hg, following_after text hnd.2 hnext]
  | message t next, hnd, hf => by
      rw [after, following, following, following_after (d := next) text hnd hf]
  | element attrs kids next, hnd, hf => by
      rw [arrangement, Arrangement.controls, List.nodup_append] at hnd
      obtain ⟨hkids, hnext, hdisj⟩ := hnd
      rw [after, following, following]
      rcases List.mem_append.mp hf with hf | hf
      · have hnot : f ∉ next.arrangement.controls := fun h => hdisj f hf f h rfl
        have hafter : (next.after f text).following f = [] :=
          following_of_not_mem (by rwa [arrangement_after])
        rw [following_after text hkids hf, following_of_not_mem hnot, hafter, List.append_nil,
          List.append_nil]
      · have hnot : f ∉ kids.arrangement.controls := fun h => hdisj f h f hf rfl
        have hafter : (kids.after f text).following f = [] :=
          following_of_not_mem (by rwa [arrangement_after])
        rw [following_after text hnext hf, following_of_not_mem hnot, hafter, List.nil_append,
          List.nil_append]

/-- What changes no message at the parent changes none anywhere. -/
theorem following_atParent {f : φ} {op : α → Forest φ α → α × Forest φ α}
    (hop : ∀ attrs kids (g : φ), (op attrs kids).2.following g = kids.following g) (g : φ) :
    ∀ d : Forest φ α, (d.atParent f op).following g = d.following g
  | nil => rfl
  | control h next => by
      rw [atParent, following, leading_atParent, following_atParent hop, following]
  | message _ next => by rw [atParent, following, following_atParent hop, following]
  | element attrs kids next => by
      rw [atParent]
      split
      · rw [following, hop, following]
      · rw [following, following_atParent hop, following_atParent hop, following]

/-- Removing the messages below the parent of `f` takes away those that
follow the controls in the scope of `f`, and no others. -/
theorem following_removeAtParent {f g : φ} : ∀ {d : Forest φ α}, d.arrangement.controls.Nodup →
    (d.atParent f fun attrs kids => (attrs, kids.removeMessages)).following g =
      if g ∈ d.arrangement.scope f then [] else d.following g
  | nil, _ => by rw [atParent, following, ite_self]
  | control h next, hnd => by
      rw [arrangement, Arrangement.controls, List.nodup_cons] at hnd
      rw [atParent, following, leading_atParent, following_removeAtParent hnd.2, arrangement,
        Arrangement.scope, following]
      by_cases hg : h = g
      · subst hg
        rw [if_pos rfl, if_pos rfl, if_neg fun hs => hnd.1 (Arrangement.scope_subset hs)]
      · rw [if_neg hg, if_neg hg]
  | message _ next, hnd => by
      rw [atParent, following, following_removeAtParent (d := next) hnd, arrangement, following]
  | element attrs kids next, hnd => by
      rw [arrangement, Arrangement.controls, List.nodup_append] at hnd
      obtain ⟨hkids, hnext, hdisj⟩ := hnd
      have honly : g ∈ kids.arrangement.controls → next.following g = [] :=
        fun h => following_of_not_mem fun h' => hdisj g h g h' rfl
      rw [atParent, arrangement, Arrangement.scope]
      split
      · rw [following, following_removeMessages, List.nil_append, following]
        by_cases hg : g ∈ kids.arrangement.controls
        · rw [if_pos hg, honly hg]
        · rw [if_neg hg, following_of_not_mem hg, List.nil_append]
      · rw [following, following_removeAtParent hkids, following_removeAtParent hnext, following]
        by_cases hg : g ∈ kids.arrangement.scope f
        · rw [if_pos hg, if_pos (List.mem_append_left _ hg), honly (Arrangement.scope_subset hg),
            ite_self]
          rfl
        · by_cases hg' : g ∈ next.arrangement.scope f
          · have hnot : g ∉ kids.arrangement.controls :=
              fun h => hdisj g h g (Arrangement.scope_subset hg') rfl
            rw [if_neg hg, if_pos hg', if_pos (List.mem_append_right _ hg'),
              following_of_not_mem hnot]
            rfl
          · rw [if_neg hg, if_neg hg', if_neg (List.not_mem_append hg hg')]

end Forest

end Dom
