import Resources.FormErrors
import Resources.UrlEncoded

/-!
# The query that `ajax` sends

The query is `UrlEncoded.join` of the four parameters, values as they are.
Reading it gives the parameters back exactly when the three texts are
safe; `decode_query_iff` says so for every state of every session, and
`query_changed` is a text that `validateFields` accepts and the query
does not carry over.
-/

namespace Resources

namespace FormValidation

open UrlEncoded (Text Safe SafeName parse cutFragment join decode)

/-- The four parameters of the query, with the values that they are meant to
have. -/
def parameters (s : State) : List (Text × Text) :=
  [("name".toList, s.name.toList), ("email".toList, s.email.toList),
    ("message".toList, s.message.toList), ("action".toList, "Send message".toList)]

theorem myQuery_toList {s : State} (haction : s.formAction = "Send message") :
    s.myQuery.toList = join (parameters s) := by
  rw [State.myQuery, haction]
  simp only [String.toList_append, parameters, join]
  simp

theorem query_iff {s : State} (haction : s.formAction = "Send message") :
    parse (cutFragment s.myQuery.toList) = parameters s ↔
      Safe s.name.toList ∧ Safe s.email.toList ∧ Safe s.message.toList := by
  have hsend : Safe "Send message".toList :=
    (UrlEncoded.safeName_of_unreserved rfl).toSafe
  have hnames : ∀ p ∈ parameters s, SafeName p.1 := by
    intro p hp
    simp only [parameters, List.mem_cons, List.not_mem_nil, or_false] at hp
    rcases hp with rfl | rfl | rfl | rfl
    all_goals exact UrlEncoded.safeName_of_unreserved rfl
  rw [myQuery_toList haction, UrlEncoded.parse_join_iff _ hnames]
  simp only [parameters, List.forall_mem_cons, hsend, true_and]
  simp

/-- **The query is read back** exactly when none of the three texts has an `&`,
a `#`, a `+` or an escape in it. Any state of a session will do, whether or not
its values have passed. -/
theorem decode_query_iff {page : Page} {value : Field → Value} {evs : List Event} {s : Session}
    (hrun : Runs.run step (start page value) evs = some s) :
    parse (cutFragment s.form.myQuery.toList) = parameters s.form ↔
      Safe s.form.name.toList ∧ Safe s.form.email.toList ∧ Safe s.form.message.toList := by
  have hinv : SessionInv page s := Runs.run_invariant (SessionInv page)
    (fun _ _ _ h hstep => sessionInv_step h hstep) (sessionInv_start page value) hrun
  exact query_iff hinv.formAction

/-- A contact form, each field in a list item of its own. -/
def contactPage : Page where
  dom := .element ⟨"form", [], []⟩
    (.element ⟨"li", [], []⟩ (.control ⟨0, "name", "name"⟩ .nil)
      (.element ⟨"li", [], []⟩ (.control ⟨1, "email", "email"⟩ .nil)
        (.element ⟨"li", [], []⟩ (.control ⟨2, "message", "message"⟩ .nil) .nil))) .nil
  placed := ⟨by decide, rfl⟩

def contactValue (f : Field) : Value :=
  if f.id = "name" then ⟨"R&D", by decide⟩
  else if f.id = "email" then ⟨"rd@example.org", by decide⟩
  else ⟨"Hello", by decide⟩

/-- The form is accepted as it was filled in, although there is an ampersand in
its name. -/
theorem decode_query_iff_accepted : ∃ s : Session,
    Runs.run step (start contactPage contactValue) [.submit] = some s
      ∧ s.valid = some true
      ∧ (parse (cutFragment s.form.myQuery.toList) = parameters s.form ↔
          Safe s.form.name.toList ∧ Safe s.form.email.toList ∧ Safe s.form.message.toList) :=
  ⟨_, rfl, rfl, @decode_query_iff contactPage contactValue [.submit] _ rfl⟩

/-- The ampersand in the name is taken for the end of it, and the rest for a
parameter without a value. -/
theorem query_changed :
    ¬ ∀ (page : Page) (value : Field → Value) (evs : List Event) (s : Session),
      Runs.run step (start page value) evs = some s → s.valid = some true →
      parse (cutFragment s.form.myQuery.toList) = parameters s.form := by
  intro h
  have hread := (query_iff rfl).mp (h contactPage contactValue [.submit] _ rfl rfl)
  exact hread.1.ampersand (by decide)

end FormValidation

end Resources
