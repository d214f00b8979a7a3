import Resources.FormValidation

/-!
# The error messages after a validation

Each field's turn clears the messages below its whole parent before its
own message is added. `validateField_following` says what that does to the
messages of all fields: the field gets its own, those in its scope lose
theirs, and the others keep what they had. So a message survives exactly
when no later field has the field it belongs to in its scope, and
`displayed_iff` is that condition on the page and the values.

What is wrong with a value is said by `complaint`, in the code's terms.
For the address it rests on the matcher, and `emailPattern_iff` says which
values that accepts.
-/

namespace Resources

namespace FormValidation

open Dom (Forest Arrangement)
open Dom.Forest
open State

/-- What is wrong with the value of a field, and the message that says so. An
empty field is required before it is an address. -/
def complaint (s : State) (f : Field) : Option String :=
  if (s.value f).1 = "" then some "This field is required. Please enter a value."
  else if f.id = "email" ∧ ¬emailPattern (s.value f).1 then some "Your email is invalid."
  else none

/-- The messages on the page are the fields' complaints, and the call
returned whether there are any. -/
structure Displayed (s : State) (valid : Bool) : Prop where
  messages : ∀ f ∈ s.allRequiredFields, s.dom.following f = (complaint s f).toList
  result : valid = true ↔ ∀ f ∈ s.allRequiredFields, complaint s f = none

/-- No field with a complaint is in the scope of a later field. -/
def Undisturbed (s : State) : Prop :=
  s.allRequiredFields.Pairwise fun f later =>
    complaint s f ≠ none → f ∉ s.dom.arrangement.scope later

/-! ## One field -/

/-- A text control has no carriage returns, so that jQuery's `val()` is its
value. -/
theorem Value.val_eq (v : Value) : v.val = v.1 := by
  have hfilter : v.1.toList.filter (· ≠ '\r') = v.1.toList := by
    rw [List.filter_eq_self]
    intro c hc
    rw [decide_eq_true_eq]
    rintro rfl
    exact v.2 hc
  rw [Value.val, hfilter, String.ofList_toList]

/-- Everything a field's turn leaves alone: the arrangement of the controls,
the values, and what `init` has set once. -/
structure Kept (s s' : State) : Prop where
  arrangement : s'.dom.arrangement = s.dom.arrangement
  value : s'.value = s.value
  allRequiredFields : s'.allRequiredFields = s.allRequiredFields
  formAction : s'.formAction = s.formAction

theorem Kept.trans {s t u : State} (h₁ : Kept s t) (h₂ : Kept t u) : Kept s u where
  arrangement := h₂.arrangement.trans h₁.arrangement
  value := h₂.value.trans h₁.value
  allRequiredFields := h₂.allRequiredFields.trans h₁.allRequiredFields
  formAction := h₂.formAction.trans h₁.formAction

theorem Kept.complaint {s s' : State} (h : Kept s s') (f : Field) :
    complaint s' f = FormValidation.complaint s f := by
  rw [FormValidation.complaint, FormValidation.complaint, h.value]

theorem kept_resetObj (s : State) (f : Field) : Kept s (s.resetObj f) where
  arrangement := by
    unfold resetObj
    rw [arrangement_atParent fun _ _ => rfl, arrangement_atParent fun _ _ => ?_,
      arrangement_atParent fun _ _ => ?_]
    · exact arrangement_removeMessages _
    · exact arrangement_mapAttrs _ _
  value := rfl
  allRequiredFields := rfl
  formAction := rfl

/-- What resetting a field does to the messages: those in its scope go, and the
others stay. -/
theorem resetObj_following {s : State} (hnd : s.dom.arrangement.controls.Nodup) (f g : Field) :
    (s.resetObj f).dom.following g =
      if g ∈ s.dom.arrangement.scope f then [] else s.dom.following g := by
  unfold resetObj
  rw [following_atParent fun _ _ _ => rfl, following_atParent fun _ _ _ => following_mapAttrs _ _ _]
  exact following_removeAtParent hnd

theorem kept_displayError (s : State) (f : Field) (message : String) :
    Kept s (s.displayError f message) where
  arrangement := by
    unfold displayError
    rw [arrangement_atParent fun _ _ => ?_, arrangement_atParent fun _ _ => rfl, arrangement_after]
    exact arrangement_mapAttrs _ _
  value := rfl
  allRequiredFields := rfl
  formAction := rfl

/-- What displaying a message does: it comes after its field, before all that
was there. -/
theorem displayError_following {s : State} {f : Field} (hnd : s.dom.arrangement.controls.Nodup)
    (hf : f ∈ s.dom.arrangement.controls) (message : String) (g : Field) :
    (s.displayError f message).dom.following g =
      if g = f then message :: s.dom.following f else s.dom.following g := by
  unfold displayError
  rw [following_atParent fun _ _ _ => following_mapAttrs _ _ _, following_atParent fun _ _ _ => rfl]
  split
  · next hg =>
      subst hg
      exact following_after message hnd hf
  · next hg => exact following_after_ne hg message _

/-! ## One turn -/

/-- Display the message, if there is one. -/
def shown (f : Field) (s : State) : Option String → State
  | some text => s.displayError f text
  | none => s

/-- The field is the address, and its value is one that the pattern refuses. -/
def BadEmail (s : State) (f : Field) : Prop :=
  f.id = "email" ∧ (s.value f).1 ≠ "" ∧ ¬emailPattern (s.value f).1

theorem checkEmail_bad {s : State} {f : Field} (h : BadEmail s f) (valid : Bool) :
    checkEmail f (s, valid) =
      ({ s with email := (s.value f).1 }.displayError f "Your email is invalid.", false) := by
  rw [checkEmail, if_pos h.1]
  simp only
  rw [if_pos h.2]

theorem checkEmail_good {s : State} {f : Field} (h : ¬BadEmail s f) (valid : Bool) :
    ∃ email, checkEmail f (s, valid) = ({ s with email := email }, valid) := by
  rw [checkEmail]
  split
  · next hid =>
      simp only
      rw [if_neg fun hbad => h ⟨hid, hbad⟩]
      exact ⟨_, rfl⟩
  · exact ⟨s.email, rfl⟩

theorem note_eq (s : State) (f : Field) :
    ∃ name message, (s.noteName f).noteMessage f = { s with name := name, message := message } := by
  unfold noteName noteMessage
  split <;> split <;> exact ⟨_, _, rfl⟩

/-- Besides the page, a turn changes only what is not read before the
next call. -/
theorem validateField_eq (s : State) (valid : Bool) (f : Field) :
    ∃ allErrorFields name email message,
      validateField (s, valid) f =
        ({ shown f (s.resetObj f) (complaint s f) with
            allErrorFields := allErrorFields, name := name, email := email, message := message },
          valid && (complaint s f).isNone) := by
  unfold validateField complaint
  by_cases hempty : (s.value f).1 = ""
  · -- an empty field: `checkEmail` says nothing
    obtain ⟨email, hemail⟩ := checkEmail_good (s := s.resetObj f) (f := f)
      (fun hbad => hbad.2.1 hempty) valid
    obtain ⟨name, message, hnote⟩ := note_eq { s.resetObj f with email := email } f
    rw [hemail]
    simp only
    rw [hnote, checkEmpty, if_pos (by rw [Value.val_eq]; exact hempty), if_pos hempty]
    exact ⟨_, name, email, message, by rw [Option.isNone_some, Bool.and_false]; rfl⟩
  · rw [if_neg hempty]
    have hrest : ∀ (t : State) (v : Bool), t.value = s.value → ∃ name message,
        checkEmpty f ((t.noteName f).noteMessage f, v) =
          ({ t with name := name, message := message }, v) := by
      intro t v ht
      obtain ⟨name, message, hnote⟩ := note_eq t f
      refine ⟨name, message, ?_⟩
      rw [hnote, checkEmpty, if_neg]
      rw [Value.val_eq]
      show ¬(t.value f).1 = ""
      rwa [ht]
    by_cases hbad : BadEmail s f
    · obtain ⟨name, message, heq⟩ := hrest _ false
        (kept_displayError { s.resetObj f with email := (s.value f).1 } f "Your email is invalid.").value
      rw [checkEmail_bad (s := s.resetObj f) hbad, if_pos ⟨hbad.1, hbad.2.2⟩]
      simp only
      exact ⟨_, name, (s.value f).1, message, by rw [Option.isNone_some, Bool.and_false]; exact heq⟩
    · obtain ⟨email, hemail⟩ := checkEmail_good (s := s.resetObj f) (f := f) hbad valid
      obtain ⟨name, message, heq⟩ := hrest { s.resetObj f with email := email } valid rfl
      rw [hemail, if_neg fun h => hbad ⟨h.1, hempty, h.2⟩]
      exact ⟨_, name, email, message, by rw [Option.isNone_none, Bool.and_true]; exact heq⟩

theorem validateField_kept (s : State) (valid : Bool) (f : Field) :
    Kept s (validateField (s, valid) f).1 := by
  obtain ⟨_, _, _, _, heq⟩ := validateField_eq s valid f
  have hshown : Kept s (shown f (s.resetObj f) (complaint s f)) := by
    cases complaint s f with
    | some text => exact (kept_resetObj s f).trans (kept_displayError _ f text)
    | none => exact kept_resetObj s f
  rw [heq]
  exact ⟨hshown.arrangement, hshown.value, hshown.allRequiredFields, hshown.formAction⟩

/-- **Turn lemma.** What the turn of one field does to the messages after all
fields: its own messages are its complaint, those in its scope are cleared, and
the others stay. -/
theorem validateField_following {s : State} (hpl : s.dom.arrangement.Placed) {f : Field}
    (hf : f ∈ s.dom.arrangement.controls) (valid : Bool) (g : Field) :
    (validateField (s, valid) f).1.dom.following g =
      if g = f then (complaint s f).toList
      else if g ∈ s.dom.arrangement.scope f then [] else s.dom.following g := by
  obtain ⟨_, _, _, _, heq⟩ := validateField_eq s valid f
  have hself : f ∈ s.dom.arrangement.scope f :=
    Arrangement.self_mem_scope hf (by rw [hpl.inside]; exact List.not_mem_nil)
  have harr := (kept_resetObj s f).arrangement
  rw [heq]
  show (shown f (s.resetObj f) (complaint s f)).dom.following g = _
  cases complaint s f with
  | some text =>
      rw [shown, displayError_following (by rw [harr]; exact hpl.nodup) (by rw [harr]; exact hf),
        resetObj_following hpl.nodup, resetObj_following hpl.nodup, if_pos hself]
      rfl
  | none =>
      rw [shown, resetObj_following hpl.nodup]
      by_cases hg : g = f
      · rw [if_pos hg, hg, if_pos hself]
        rfl
      · rw [if_neg hg]

theorem validateField_valid (s : State) (valid : Bool) (f : Field) :
    (validateField (s, valid) f).2 = (valid && (complaint s f).isNone) := by
  obtain ⟨_, _, _, _, heq⟩ := validateField_eq s valid f
  rw [heq]

/-! ## All turns -/

theorem turns_kept : ∀ (fs : List Field) (s : State) (valid : Bool),
    Kept s (fs.foldl validateField (s, valid)).1
  | [], _, _ => ⟨rfl, rfl, rfl, rfl⟩
  | f :: fs, s, valid => by
      rw [List.foldl_cons]
      exact (validateField_kept s valid f).trans (turns_kept fs _ _)

theorem turns_valid : ∀ (fs : List Field) (s : State) (valid : Bool),
    (fs.foldl validateField (s, valid)).2 = true ↔
      valid = true ∧ ∀ f ∈ fs, complaint s f = none
  | [], _, _ => by simp
  | f :: fs, s, valid => by
      have hkept := validateField_kept s valid f
      rw [List.foldl_cons, ← Prod.eta (validateField (s, valid) f), turns_valid fs,
        validateField_valid, Bool.and_eq_true, Option.isNone_iff_eq_none, List.forall_mem_cons,
        and_assoc]
      simp only [hkept.complaint]

/-- The turns of other fields can only take a field's messages away. -/
theorem turns_following : ∀ (fs : List Field) {s : State} (valid : Bool) {g : Field},
    s.dom.arrangement.Placed → (∀ f ∈ fs, f ∈ s.dom.arrangement.controls) → g ∉ fs →
    (fs.foldl validateField (s, valid)).1.dom.following g =
      if ∃ f ∈ fs, g ∈ s.dom.arrangement.scope f then [] else s.dom.following g
  | [], _, _, _, _, _, _ => by simp
  | f :: fs, s, valid, g, hpl, hfs, hg => by
      have hkept := validateField_kept s valid f
      rw [List.forall_mem_cons] at hfs
      rw [List.mem_cons, not_or] at hg
      rw [List.foldl_cons, ← Prod.eta (validateField (s, valid) f),
        turns_following fs _ (by rw [hkept.arrangement]; exact hpl)
          (by rw [hkept.arrangement]; exact hfs.2) hg.2,
        hkept.arrangement, validateField_following hpl hfs.1, if_neg hg.1]
      by_cases hlater : ∃ f ∈ fs, g ∈ s.dom.arrangement.scope f
      · rw [if_pos hlater, if_pos (List.exists_mem_cons_of_exists hlater)]
      · rw [if_neg hlater]
        refine if_congr ?_ rfl rfl
        exact ⟨fun h => ⟨f, List.mem_cons_self, h⟩,
          fun h => (List.or_exists_of_exists_mem_cons h).resolve_right hlater⟩

/-- A field's complaint is on display after its own turn, and stays there
through the turns of fields that do not have it in their scope. -/
theorem turns_messages : ∀ (fs : List Field) {s : State} (valid : Bool),
    s.dom.arrangement.Placed → (∀ f ∈ fs, f ∈ s.dom.arrangement.controls) → fs.Nodup →
    ((∀ g ∈ fs, (fs.foldl validateField (s, valid)).1.dom.following g = (complaint s g).toList) ↔
      fs.Pairwise fun g later => complaint s g ≠ none → g ∉ s.dom.arrangement.scope later)
  | [], _, _, _, _, _ => by simp
  | f :: fs, s, valid, hpl, hfs, hnd => by
      have hkept := validateField_kept s valid f
      rw [List.forall_mem_cons] at hfs
      rw [List.nodup_cons] at hnd
      have hpl' : (validateField (s, valid) f).1.dom.arrangement.Placed := by
        rw [hkept.arrangement]
        exact hpl
      have hfs' : ∀ g ∈ fs, g ∈ (validateField (s, valid) f).1.dom.arrangement.controls := by
        rw [hkept.arrangement]
        exact hfs.2
      have ih := turns_messages fs (validateField (s, valid) f).2 hpl' hfs' hnd.2
      simp only [hkept.arrangement, hkept.complaint, Prod.eta] at ih
      rw [List.forall_mem_cons, List.pairwise_cons, List.foldl_cons, ih]
      refine and_congr_left fun _ => ?_
      have hfinal := turns_following fs (validateField (s, valid) f).2 hpl' hfs' hnd.1
      rw [Prod.eta, hkept.arrangement, validateField_following hpl hfs.1, if_pos rfl] at hfinal
      rw [hfinal]
      cases hc : complaint s f with
      | none => simp
      | some text =>
          by_cases hlater : ∃ g ∈ fs, f ∈ s.dom.arrangement.scope g
          · rw [if_pos hlater]
            refine iff_of_false (List.cons_ne_nil text []).symm ?_
            intro h
            obtain ⟨g, hg, hscope⟩ := hlater
            exact h g hg (Option.some_ne_none text) hscope
          · rw [if_neg hlater]
            exact iff_of_true rfl fun g hg _ hscope => hlater ⟨g, hg, hscope⟩

/-- What one call does, for a page whose required fields are placed. -/
theorem validateFields_displayed {s : State} (hpl : s.dom.arrangement.Placed)
    (hall : s.allRequiredFields = s.dom.arrangement.controls) :
    Displayed s.validateFields.1 s.validateFields.2 ↔ Undisturbed s := by
  have hkept : Kept s s.validateFields.1 := turns_kept _ _ _
  have hvalid := turns_valid s.allRequiredFields s true
  have hmessages := turns_messages s.allRequiredFields true hpl (by simp [hall])
    (by rw [hall]; exact hpl.nodup)
  rw [Undisturbed, ← hmessages]
  constructor
  · intro h g hg
    rw [← hkept.complaint]
    exact h.messages g (by rwa [hkept.allRequiredFields])
  · intro h
    refine ⟨?_, ?_⟩
    · rw [hkept.allRequiredFields]
      intro g hg
      rw [hkept.complaint]
      exact h g hg
    · rw [hkept.allRequiredFields]
      simp only [hkept.complaint]
      exact hvalid.trans (and_iff_right rfl)

/-! ## Sessions -/

/-- What stays as the page was loaded: the arrangement of its nodes, and the
set that `init` has selected. Messages come and go, and controls do not. -/
structure SessionInv (page : Page) (s : Session) : Prop where
  arrangement : s.form.dom.arrangement = page.dom.arrangement
  allRequiredFields : s.form.allRequiredFields = page.dom.arrangement.controls
  formAction : s.form.formAction = "Send message"

theorem sessionInv_start (page : Page) (value : Field → Value) :
    SessionInv page (start page value) :=
  ⟨rfl, rfl, rfl⟩

theorem sessionInv_step {page : Page} {s s' : Session} {e : Event} (h : SessionInv page s)
    (hstep : step s e = some s') : SessionInv page s' := by
  cases e with
  | edit field value =>
      obtain rfl := Option.some.inj hstep
      exact ⟨h.arrangement, h.allRequiredFields, h.formAction⟩
  | submit =>
      obtain rfl := Option.some.inj hstep
      have hkept : Kept s.form s.form.validateFields.1 := turns_kept _ _ _
      exact ⟨hkept.arrangement.trans h.arrangement,
        hkept.allRequiredFields.trans h.allRequiredFields, hkept.formAction.trans h.formAction⟩

/-- After a call the page shows what is wrong with the values, and the call
returned whether anything is. -/
def DisplaysErrors (_ : Session) (e : Event) (s' : Session) : Prop :=
  e = .submit → ∃ valid, s'.valid = some valid ∧ Displayed s'.form valid

/-- **Every call of a session displays its errors** exactly when every
call finds the fields with complaints undisturbed. -/
theorem displayed_iff {page : Page} {value : Field → Value} {evs : List Event} {s : Session}
    (hrun : Runs.run step (start page value) evs = some s) :
    Runs.EachStep step DisplaysErrors (start page value) evs ↔
      Runs.EachStep step (fun s e _ => e = .submit → Undisturbed s.form) (start page value)
        evs := by
  refine Runs.eachStep_iff (SessionInv page) ?_ (fun _ _ _ h hstep _ => sessionInv_step h hstep)
    (sessionInv_start page value) hrun
  intro t e u h hstep
  have hpl : t.form.dom.arrangement.Placed := h.arrangement ▸ page.placed
  have hall : t.form.allRequiredFields = t.form.dom.arrangement.controls := by
    rw [h.allRequiredFields, h.arrangement]
  refine imp_congr_right ?_
  intro he
  subst he
  obtain rfl := Option.some.inj hstep
  rw [← validateFields_displayed hpl hall]
  constructor
  · rintro ⟨valid, hvalid, hdisp⟩
    obtain rfl := Option.some.inj hvalid
    exact hdisp
  · exact fun hdisp => ⟨_, rfl, hdisp⟩

/-- A form with two required fields, each in a list item of its own. -/
def listPage : Page where
  dom := .element ⟨"form", [], []⟩
    (.element ⟨"li", [], []⟩ (.control ⟨0, "name", "name"⟩ .nil)
      (.element ⟨"li", [], []⟩ (.control ⟨1, "message", "message"⟩ .nil) .nil)) .nil
  placed := ⟨by decide, rfl⟩

/-- The same fields, side by side. -/
def flatPage : Page where
  dom := .element ⟨"form", [], []⟩
    (.control ⟨0, "name", "name"⟩ (.control ⟨1, "message", "message"⟩ .nil)) .nil
  placed := ⟨by decide, rfl⟩

def noValue : Value := ⟨"", by decide⟩

/-- The form with list items is submitted twice, and nothing is filled in. -/
theorem displayed_iff_list : ∃ s : Session,
    Runs.run step (start listPage fun _ => noValue) [.submit, .submit] = some s
      ∧ (Runs.EachStep step DisplaysErrors (start listPage fun _ => noValue) [.submit, .submit] ↔
          Runs.EachStep step (fun s e _ => e = .submit → Undisturbed s.form)
            (start listPage fun _ => noValue) [.submit, .submit]) :=
  ⟨_, rfl, @displayed_iff listPage (fun _ => noValue) [.submit, .submit] _ rfl⟩

/-- Two empty fields with one parent: the second field's turn takes the
first one's message away. -/
theorem message_lost :
    ¬ ∀ (page : Page) (value : Field → Value) (evs : List Event) (s : Session),
      Runs.run step (start page value) evs = some s →
      Runs.EachStep step DisplaysErrors (start page value) evs := by
  intro h
  have hall := h flatPage (fun _ => noValue) [.submit] _ rfl
  obtain ⟨valid, -, hdisp⟩ := hall [] .submit [] rfl _ _ rfl rfl rfl
  have hmessage := hdisp.messages ⟨0, "name", "name"⟩ List.mem_cons_self
  exact absurd hmessage (by decide)

end FormValidation

end Resources
