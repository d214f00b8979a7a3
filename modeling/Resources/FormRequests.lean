import Resources.FormQuery

/-!
# The requests of the form

After a submit that passes, the form is faded and then sent by `ajax`, so
that edits, further submits and answers of the server may come in
between. Every call of `ajax` creates a request and puts it into one global
variable, `xmlhttp`. Whichever request an event is for, the handler looks
at the one that is there, which is the latest (`Inv.latest`); so the dialog
shows the answer to the latest request once there is one (`dialog_latest`).
And `ajax` sends the values that the latest submit has noted, whatever came
of it (`requests_accepted`).

Which class `ajax` finds to create a request with makes no difference
and is left out, as is what the fades look like.
-/

namespace Resources

namespace FormValidation

/-! ## The code -/

/-- A request that has been opened, as the handler sees it. -/
structure Xhr where
  serverPage : String
  readyState : ℕ
  status : ℕ
  responseText : String

/-- The answer has arrived, and the handler takes it. -/
def Xhr.Answered (x : Xhr) : Prop := x.readyState = 4 ∧ x.status = 200

instance (x : Xhr) : Decidable x.Answered := inferInstanceAs (Decidable (_ ∧ _))

/-- The form in the browser, with its requests and the dialog that shows their
answers. -/
structure Client where
  session : Session
  /-- The fades of the form that are not over; each ends in `onComplete`. -/
  fades : ℕ
  /-- All requests, in the order of their creation. -/
  requests : List Xhr
  /-- The global variable. -/
  xmlhttp : Option ℕ
  /-- What `#formDialog` says. -/
  formDialog : String
  /-- The request that it is the answer to; the code does not keep this. -/
  shown : Option ℕ

namespace Client

def new (session : Session) (formDialog : String) : Client where
  session := session
  fades := 0
  requests := []
  xmlhttp := none
  formDialog := formDialog
  shown := none

def wait (c : Client) : Client := { c with fades := c.fades + 1 }

/-- A new request is opened and takes the place of the one before in `xmlhttp`,
which nothing keeps. -/
def makeRequest (serverPage : String) (c : Client) : Client :=
  { c with
    requests := c.requests ++ [⟨serverPage, 1, 0, ""⟩]
    xmlhttp := some c.requests.length }

/-- The query is built when the form has faded, from what the latest submit has
noted. -/
def ajax (c : Client) : Client := c.makeRequest ("php/process.php?" ++ c.session.form.myQuery)

/-- The handler of every request. It does not look at the request that it is
called for, but at the one in `xmlhttp`. -/
def onreadystatechange (c : Client) : Client :=
  match c.xmlhttp.bind (c.requests[·]?) with
  | some x => if x.Answered then { c with formDialog := x.responseText, shown := c.xmlhttp } else c
  | none => c

end Client

/-- What the visitor does, what the browser does later, and what the network
does to a request. -/
inductive ClientEvent where
  | form (e : Event)
  /-- The first fade in the queue is over. -/
  | fadeDone
  /-- The request becomes `x`. -/
  | network (i : ℕ) (x : Xhr)

namespace Client

/-- One event. A request moves on through its states until it is done, and each
change calls the handler. -/
def step (c : Client) : ClientEvent → Option Client
  | .form e => do
      let session ← FormValidation.step c.session e
      let c := { c with session := session }
      match e with
      | .edit _ _ => some c
      | .submit => if session.valid = some true then some c.wait else some c
  | .fadeDone => if c.fades = 0 then none else some { c with fades := c.fades - 1 }.ajax
  | .network i x => do
      let old ← c.requests[i]?
      if old.readyState < 4 ∧ old.readyState ≤ x.readyState ∧ x.serverPage = old.serverPage then
        some { c with requests := c.requests.set i x }.onreadystatechange
      else none

/-! ## What the dialog says -/

/-- `xmlhttp` is the last of the requests, and the dialog says what it said
at first or the answer of the request that is noted as shown, which is the
latest one as soon as that has been answered. -/
structure Inv (formDialog : String) (c : Client) : Prop where
  latest : ∀ k, c.xmlhttp = some k ↔ k + 1 = c.requests.length
  shown : ∀ k, c.shown = some k →
    ∃ x, c.requests[k]? = some x ∧ x.Answered ∧ c.formDialog = x.responseText
  answered : ∀ k x, c.xmlhttp = some k → c.requests[k]? = some x → x.Answered → c.shown = some k
  untouched : c.shown = none → c.formDialog = formDialog

/-- The dialog does not go back to an earlier request. -/
def Forward (c c' : Client) : Prop := ∀ j, c.shown = some j → ∃ k, c'.shown = some k ∧ j ≤ k

variable {formDialog : String} {c c' : Client}

theorem inv_new (session : Session) : Inv formDialog (new session formDialog) := by
  refine ⟨?_, ?_, ?_, fun _ => rfl⟩
  · exact fun k => iff_of_false (Option.some_ne_none k).symm (Nat.succ_ne_zero k)
  · exact fun k h => absurd h.symm (Option.some_ne_none k)
  · exact fun k _ h => absurd h.symm (Option.some_ne_none k)

theorem Inv.of_eq (h : Inv formDialog c) (hrequests : c'.requests = c.requests)
    (hxmlhttp : c'.xmlhttp = c.xmlhttp) (hdialog : c'.formDialog = c.formDialog)
    (hshown : c'.shown = c.shown) : Inv formDialog c' := by
  constructor
  · rw [hrequests, hxmlhttp]
    exact h.latest
  · rw [hrequests, hdialog, hshown]
    exact h.shown
  · rw [hrequests, hxmlhttp, hshown]
    exact h.answered
  · rw [hdialog, hshown]
    exact h.untouched

theorem forward_of_eq (hshown : c'.shown = c.shown) : Forward c c' :=
  fun j hj => ⟨j, by rw [hshown, hj], Nat.le_refl j⟩

theorem inv_makeRequest (h : Inv formDialog c) (serverPage : String) :
    Inv formDialog (c.makeRequest serverPage) := by
  refine ⟨?_, ?_, ?_, h.untouched⟩
  · intro k
    simp [makeRequest, eq_comm]
  · intro k hk
    obtain ⟨x, hx, hanswer⟩ := h.shown k hk
    have hlt : k < c.requests.length := (List.getElem?_eq_some_iff.mp hx).1
    refine ⟨x, ?_, hanswer⟩
    rw [makeRequest, List.getElem?_append_left hlt, hx]
  · -- a new request has no answer
    intro k x hk hx hanswer
    obtain rfl := Option.some.inj hk
    simp only [makeRequest, List.getElem?_concat_length, Option.some.injEq] at hx
    rw [← hx] at hanswer
    exact absurd hanswer.1 (show 1 ≠ 4 by decide)

/-- Whichever request has changed, the handler looks at the latest one, and
shows its answer if there is one. -/
theorem inv_network (h : Inv formDialog c) {i : ℕ} {old x : Xhr} (hold : c.requests[i]? = some old)
    (hopen : old.readyState < 4) :
    Inv formDialog { c with requests := c.requests.set i x }.onreadystatechange ∧
      Forward c { c with requests := c.requests.set i x }.onreadystatechange := by
  have hi : i < c.requests.length := (List.getElem?_eq_some_iff.mp hold).1
  -- the request that is shown has been answered, and is another one
  have hkept : ∀ k, c.shown = some k → (c.requests.set i x)[k]? = c.requests[k]? := by
    intro k hk
    obtain ⟨y, hy, hanswer, -⟩ := h.shown k hk
    refine List.getElem?_set_ne ?_
    rintro rfl
    obtain rfl := Option.some.inj (hold.symm.trans hy)
    have hdone := hanswer.1
    omega
  have hlatest : ∀ k, c.xmlhttp = some k ↔ k + 1 = (c.requests.set i x).length := by
    rw [List.length_set]
    exact h.latest
  unfold onreadystatechange
  simp only
  split
  · next y hy =>
      obtain ⟨n, hn, hny⟩ := Option.bind_eq_some_iff.mp hy
      split
      · next hanswer =>
          refine ⟨⟨hlatest, ?_, ?_, ?_⟩, ?_⟩
          · intro k hk
            obtain rfl := Option.some.inj (hn.symm.trans hk)
            exact ⟨y, hny, hanswer, rfl⟩
          · intro k _ hk _ _
            exact hk
          · intro hnone
            rw [hn] at hnone
            cases hnone
          · intro j hj
            obtain ⟨z, hz, -⟩ := h.shown j hj
            have hjlt : j < c.requests.length := (List.getElem?_eq_some_iff.mp hz).1
            have hlen := (h.latest n).mp hn
            exact ⟨n, hn, by omega⟩
      · next hanswer =>
          refine ⟨⟨hlatest, ?_, ?_, h.untouched⟩, forward_of_eq rfl⟩
          · intro k hk
            rw [hkept k hk]
            exact h.shown k hk
          · intro k z hk hz hz'
            obtain rfl := Option.some.inj (hn.symm.trans hk)
            obtain rfl := Option.some.inj (hny.symm.trans hz)
            exact absurd hz' hanswer
  · next hnone =>
      refine ⟨⟨hlatest, ?_, ?_, h.untouched⟩, forward_of_eq rfl⟩
      · intro k hk
        rw [hkept k hk]
        exact h.shown k hk
      · intro k z hk hz _
        rw [hk, Option.bind_some, hz] at hnone
        cases hnone

/-- What an event of the form does to the rest: it may start a fade, and
touches neither requests nor dialog. -/
theorem step_form {e : Event} (hstep : step c (.form e) = some c') :
    ∃ session, FormValidation.step c.session e = some session ∧
      (c' = { c with session := session } ∨
        e = .submit ∧ session.valid = some true ∧ c' = { c with session := session }.wait) := by
  simp only [step, Option.bind_eq_bind, Option.bind_eq_some_iff] at hstep
  obtain ⟨session, hsession, hstep⟩ := hstep
  refine ⟨session, hsession, ?_⟩
  split at hstep
  · exact Or.inl (Option.some.inj hstep).symm
  · split at hstep
    · next hvalid => exact Or.inr ⟨rfl, hvalid, (Option.some.inj hstep).symm⟩
    · exact Or.inl (Option.some.inj hstep).symm

/-- **Step lemma.** Each event keeps the invariant, and does not take the
dialog back. -/
theorem inv_step {e : ClientEvent} (h : Inv formDialog c) (hstep : step c e = some c') :
    Inv formDialog c' ∧ Forward c c' := by
  cases e with
  | form e =>
      obtain ⟨session, -, rfl | ⟨-, -, rfl⟩⟩ := step_form hstep
      · exact ⟨h.of_eq rfl rfl rfl rfl, forward_of_eq rfl⟩
      · exact ⟨h.of_eq rfl rfl rfl rfl, forward_of_eq rfl⟩
  | fadeDone =>
      simp only [step] at hstep
      split at hstep
      · cases hstep
      · obtain rfl := Option.some.inj hstep
        have hfade : Inv formDialog { c with fades := c.fades - 1 } := h.of_eq rfl rfl rfl rfl
        exact ⟨inv_makeRequest hfade _, forward_of_eq rfl⟩
  | network i x =>
      simp only [step, Option.bind_eq_bind, Option.bind_eq_some_iff] at hstep
      obtain ⟨old, hold, hstep⟩ := hstep
      split at hstep
      · next hopen =>
          obtain rfl := Option.some.inj hstep
          exact inv_network h hold hopen.1
      · cases hstep

theorem inv_run {evs : List ClientEvent} (h : Inv formDialog c)
    (hrun : Runs.run step c evs = some c') : Inv formDialog c' :=
  Runs.run_invariant (Inv formDialog) (fun _ _ _ ht hstep => (inv_step ht hstep).1) h hrun

theorem forward_run : ∀ {evs : List ClientEvent} {c c' : Client}, Inv formDialog c →
    Runs.run step c evs = some c' → Forward c c'
  | [], _, _, _, hrun => by
      obtain rfl := Option.some.inj hrun
      exact forward_of_eq rfl
  | e :: evs, c, c', h, hrun => by
      obtain ⟨d, hstep, hrest⟩ := Runs.run_cons.mp hrun
      obtain ⟨hd, hforward⟩ := inv_step h hstep
      intro j hj
      obtain ⟨k, hk, hjk⟩ := hforward j hj
      obtain ⟨l, hl, hkl⟩ := forward_run hd hrest k hk
      exact ⟨l, hl, Nat.le_trans hjk hkl⟩

end Client

def clientStart (page : Page) (value : Field → Value) (formDialog : String) : Client :=
  .new (start page value) formDialog

/-- **The dialog follows the latest request**: once the last of all requests
has been answered the dialog has its answer, and an answer never makes way
for that of an earlier request, in whatever order the answers arrive. -/
theorem dialog_latest {page : Page} {value : Field → Value} {formDialog : String}
    {before after : List ClientEvent} {c c' : Client}
    (hrun : Runs.run Client.step (clientStart page value formDialog) before = some c)
    (hmore : Runs.run Client.step c after = some c') :
    (∀ k x, k + 1 = c'.requests.length → c'.requests[k]? = some x → x.Answered →
      c'.formDialog = x.responseText) ∧
    (∀ j, c.shown = some j → ∃ k x, c'.shown = some k ∧ j ≤ k ∧ c'.requests[k]? = some x ∧
      x.Answered ∧ c'.formDialog = x.responseText) := by
  have hc := Client.inv_run (Client.inv_new (start page value)) hrun
  have hc' := Client.inv_run hc hmore
  constructor
  · intro k x hlast hx hanswer
    -- the last request is the one in the global variable
    have hk := (hc'.latest k).mpr hlast
    obtain ⟨y, hy, -, hdialog⟩ := hc'.shown k (hc'.answered k x hk hx hanswer)
    obtain rfl := Option.some.inj (hx.symm.trans hy)
    exact hdialog
  · intro j hj
    obtain ⟨k, hk, hjk⟩ := Client.forward_run hc hmore j hj
    obtain ⟨x, hx⟩ := hc'.shown k hk
    exact ⟨k, x, hk, hjk, hx⟩

/-- An answer to a request for the contact form. -/
def answer (responseText : String) : Xhr where
  serverPage := "php/process.php?name=R&D&email=rd@example.org&message=Hello&action=Send message"
  readyState := 4
  status := 200
  responseText := responseText

/-- The first of three requests is answered before the others are made, and
the second one after the third. -/
theorem dialog_latest_three : ∃ c c' : Client,
    Runs.run Client.step (clientStart contactPage contactValue "")
        [.form .submit, .fadeDone, .network 0 (answer "One")] = some c ∧
      Runs.run Client.step c [.form .submit, .fadeDone, .form .submit, .fadeDone,
        .network 2 (answer "Three"), .network 1 (answer "Two")] = some c' ∧
      (c.shown = some 0 ∧ c.formDialog = "One" ∧ c'.formDialog = "Three") ∧
      (∀ k x, k + 1 = c'.requests.length → c'.requests[k]? = some x → x.Answered →
        c'.formDialog = x.responseText) ∧
      (∀ j, c.shown = some j → ∃ k x, c'.shown = some k ∧ j ≤ k ∧ c'.requests[k]? = some x ∧
        x.Answered ∧ c'.formDialog = x.responseText) :=
  ⟨_, _, rfl, rfl, ⟨rfl, rfl, rfl⟩, @dialog_latest contactPage contactValue ""
    [.form .submit, .fadeDone, .network 0 (answer "One")] [.form .submit, .fadeDone, .form .submit,
      .fadeDone, .network 2 (answer "Three"), .network 1 (answer "Two")] _ _ rfl rfl⟩

/-! ## What is sent -/

/-- A submit that passes leaves no field with a complaint. -/
theorem submit_valid {s s' : Session} (hstep : step s .submit = some s')
    (hvalid : s'.valid = some true) :
    ∀ f ∈ s'.form.allRequiredFields, complaint s'.form f = none := by
  obtain rfl := Option.some.inj hstep
  have hkept : Kept s.form s.form.validateFields.1 := turns_kept _ _ _
  have hall := ((turns_valid s.form.allRequiredFields s.form true).mp (Option.some.inj hvalid)).2
  show ∀ f ∈ s.form.validateFields.1.allRequiredFields, complaint s.form.validateFields.1 f = none
  rw [hkept.allRequiredFields]
  intro f hf
  rw [hkept.complaint]
  exact hall f hf

/-- In the course of these events there was a submit that passed, with
these parameters. -/
def Passed (start : Client) (evs : List ClientEvent) (query : String) : Prop :=
  ∃ pre c, pre ++ [.form .submit] <+: evs ∧
    Runs.run Client.step start (pre ++ [.form .submit]) = some c ∧ c.session.valid = some true ∧
      (∀ f ∈ c.session.form.allRequiredFields, complaint c.session.form f = none) ∧
      query = c.session.form.myQuery

section sent
variable {start c c' : Client} {evs more : List ClientEvent} {query : String}

theorem Passed.append (h : Passed start evs query) (more : List ClientEvent) :
    Passed start (evs ++ more) query := by
  obtain ⟨pre, c, hpre, h⟩ := h
  exact ⟨pre, c, hpre.trans (List.prefix_append evs more), h⟩

/-- All requests so far have the parameters of a submit that passed, and while
the form is fading so has what `ajax` is about to send. -/
structure Sent (start : Client) (evs : List ClientEvent) (c : Client) : Prop where
  run : Runs.run Client.step start evs = some c
  pending : 0 < c.fades → Passed start evs c.session.form.myQuery
  requests : ∀ x ∈ c.requests, ∃ query, Passed start evs query ∧
    x.serverPage = "php/process.php?" ++ query

/-- No submit fails in this step while the form is fading: it would note new
values, which `ajax` then sends. -/
def NoneFails (c : Client) (e : ClientEvent) (c' : Client) : Prop :=
  e = .form .submit → 0 < c.fades → c'.session.valid = some true

theorem requests_append (h : Sent start evs c) (more : List ClientEvent) :
    ∀ x ∈ c.requests, ∃ query, Passed start (evs ++ more) query ∧
      x.serverPage = "php/process.php?" ++ query := by
  intro x hx
  obtain ⟨query, hquery, heq⟩ := h.requests x hx
  exact ⟨query, hquery.append more, heq⟩

theorem onreadystatechange_frame (c : Client) : c.onreadystatechange.session = c.session ∧
    c.onreadystatechange.fades = c.fades ∧ c.onreadystatechange.requests = c.requests := by
  unfold Client.onreadystatechange
  split
  · split <;> exact ⟨rfl, rfl, rfl⟩
  · exact ⟨rfl, rfl, rfl⟩

/-- Each event keeps this: a submit that passes notes what it has found in
order, and only one that fails while the form fades could note something else.
-/
theorem sent_step {e : ClientEvent} (h : Sent start evs c) (hstep : Client.step c e = some c')
    (hnone : NoneFails c e c') : Sent start (evs ++ [e]) c' := by
  have hrun := Runs.run_snoc.mpr ⟨c, h.run, hstep⟩
  have hrequests := requests_append h [e]
  cases e with
  | form e =>
      cases e with
      | edit field value =>
          obtain ⟨session, hsession, rfl | ⟨he, -, -⟩⟩ := Client.step_form hstep
          · obtain rfl := Option.some.inj hsession
            exact ⟨hrun, fun hfades => (h.pending hfades).append _, hrequests⟩
          · cases he
      | submit =>
          have hpassed : c'.session.valid = some true →
              Passed start (evs ++ [.form .submit]) c'.session.form.myQuery := by
            intro hvalid
            refine ⟨evs, c', List.prefix_refl _, hrun, hvalid, ?_, rfl⟩
            obtain ⟨session, hsession, rfl | ⟨-, -, rfl⟩⟩ := Client.step_form hstep
            · exact submit_valid hsession hvalid
            · exact submit_valid hsession hvalid
          obtain ⟨session, hsession, rfl | ⟨-, hvalid, rfl⟩⟩ := Client.step_form hstep
          · exact ⟨hrun, fun hfades => hpassed (hnone rfl hfades), hrequests⟩
          · exact ⟨hrun, fun _ => hpassed hvalid, hrequests⟩
  | fadeDone =>
      simp only [Client.step] at hstep
      split at hstep
      · cases hstep
      · next hfades =>
          obtain rfl := Option.some.inj hstep
          have hpassed := (h.pending (Nat.pos_of_ne_zero hfades)).append [.fadeDone]
          refine ⟨hrun, fun _ => hpassed, ?_⟩
          intro x hx
          rcases List.mem_append.mp hx with hx | hx
          · exact hrequests x hx
          · obtain rfl := List.mem_singleton.mp hx
            exact ⟨_, hpassed, rfl⟩
  | network i x =>
      simp only [Client.step, Option.bind_eq_bind, Option.bind_eq_some_iff] at hstep
      obtain ⟨old, hold, hstep⟩ := hstep
      split at hstep
      · next hopen =>
          obtain rfl := Option.some.inj hstep
          obtain ⟨hsession, hfades, hset⟩ :=
            onreadystatechange_frame { c with requests := c.requests.set i x }
          refine ⟨hrun, ?_, ?_⟩
          · rw [hsession, hfades]
            exact fun hpos => (h.pending hpos).append _
          · rw [hset]
            intro y hy
            rcases List.mem_or_eq_of_mem_set hy with hy | rfl
            · exact hrequests y hy
            · rw [hopen.2.2]
              exact hrequests old (List.mem_of_getElem? hold)
      · cases hstep

end sent

/-- **Only what has passed is sent**, if no submit fails while the form is
fading: then every request has the parameters of a submit that found all
required fields in order. -/
theorem requests_accepted {page : Page} {value : Field → Value} {formDialog : String}
    {evs : List ClientEvent} {c : Client}
    (hrun : Runs.run Client.step (clientStart page value formDialog) evs = some c)
    (hnone : Runs.EachStep Client.step NoneFails (clientStart page value formDialog) evs) :
    ∀ x ∈ c.requests, ∃ query, Passed (clientStart page value formDialog) evs query ∧
      x.serverPage = "php/process.php?" ++ query := by
  have hstart : Sent (clientStart page value formDialog) []
      (clientStart page value formDialog) :=
    ⟨rfl, fun h => absurd h (Nat.lt_irrefl 0), List.forall_mem_nil _⟩
  exact (Runs.run_each (Sent (clientStart page value formDialog)) hstart
    (fun _ _ _ _ h hstep hQ => sent_step h hstep hQ) hrun hnone).requests

/-- The contact form is filled in and submitted, fades, and is sent. -/
theorem requests_accepted_contact : ∃ c : Client,
    Runs.run Client.step (clientStart contactPage contactValue "") [.form .submit, .fadeDone] =
        some c ∧
      ∀ x ∈ c.requests, ∃ query,
        Passed (clientStart contactPage contactValue "") [.form .submit, .fadeDone] query ∧
          x.serverPage = "php/process.php?" ++ query := by
  refine ⟨_, rfl, @requests_accepted contactPage contactValue "" [.form .submit, .fadeDone] _ rfl ?_⟩
  rw [Runs.eachStep_cons rfl, Runs.eachStep_cons rfl]
  refine ⟨fun _ h => absurd h (Nat.lt_irrefl 0), ?_, Runs.eachStep_nil⟩
  intro h
  cases h

end FormValidation

end Resources
