import Resources.Xml

/-!
# What has been read stays read

Reading only adds: an open element keeps its name, its attributes and the
children it has, and a tag its name and its attributes. So the state in
the middle of a document says something about the root at the end of it,
whatever comes between (`run_leads`).

`Leads Q d root` is that information: `root` grows from the open elements
of `d`, and the nodes still to come in the innermost of them satisfy `Q`.
-/

namespace Xml

/-! ## Growing -/

/-- The nodes begin with the element of this tag, if there is one. -/
def Starts : Option Tag → List Node → Prop
  | none, _ => True
  | some tag, ns => ∃ attrs kids more, ns = .element tag.name attrs kids :: more ∧ tag.attrs <+: attrs

/-- The nodes begin with the outermost of these elements, which goes on
with the next, and so on; the innermost goes on with nodes that satisfy
`Q`. -/
def Grows : List Frame → (List Node → Prop) → List Node → Prop
  | [], Q => Q
  | f :: fs, Q => Grows fs fun ns =>
      ∃ kids more, ns = .element f.name f.attrs (f.children ++ kids) :: more ∧ Q kids

theorem Grows.mono : ∀ (fs : List Frame) {Q Q' : List Node → Prop}, (∀ ns, Q ns → Q' ns) →
    ∀ {ns : List Node}, Grows fs Q ns → Grows fs Q' ns
  | [], _, _, hQ, ns, h => hQ ns h
  | _ :: fs, _, _, hQ, _, h => by
      refine Grows.mono fs ?_ h
      rintro ns ⟨kids, more, heq, hkids⟩
      exact ⟨kids, more, heq, hQ kids hkids⟩

/-- The root, if it is not complete yet, grows from the open elements. -/
def Leads (Q : List Node → Prop) (d : Doc) (root : Node) : Prop :=
  match d.root with
  | some r => r = root
  | none => Grows d.stack Q [root]

theorem Leads.mono {Q Q' : List Node → Prop} {d : Doc} {root : Node} (hQ : ∀ ns, Q ns → Q' ns)
    (h : Leads Q d root) : Leads Q' d root := by
  unfold Leads at *
  cases hroot : d.root with
  | some r => simpa [hroot] using h
  | none =>
      rw [hroot] at h
      exact Grows.mono _ hQ h

/-- The innermost element seen from the one around it, of which it is the next
child. -/
theorem Leads.outer {Q Q' : List Node → Prop} {f : Frame} {fs : List Frame} {dt : Option Bool}
    {sa : Bool} {root : Node} (h : Leads Q ⟨f :: fs, none, dt, sa⟩ root)
    (hQ : ∀ kids more, Q kids → Q' (.element f.name f.attrs (f.children ++ kids) :: more)) :
    Leads Q' ⟨fs, none, dt, sa⟩ root := by
  refine Grows.mono fs ?_ h
  rintro ns ⟨kids, more, rfl, hkids⟩
  exact hQ kids more hkids

/-! ## Tokens -/

/-- A node may come wherever nodes that begin with it may. -/
theorem leads_add {Q : List Node → Prop} {n : Node} {d d' : Doc} {root : Node}
    (hQ : ∀ more, Q (n :: more)) (hadd : d.add n = some d') (h : Leads (fun _ => True) d' root) :
    Leads Q d root := by
  unfold Doc.add at hadd
  unfold Leads at h ⊢
  cases hstack : d.stack with
  | nil =>
      simp only [hstack] at hadd
      split at hadd
      · next hnone =>
          obtain rfl := Option.some.inj hadd
          rw [Option.isNone_iff_eq_none] at hnone
          rw [hnone]
          obtain rfl : n = root := h
          exact hQ []
      · cases hadd
  | cons f fs =>
      simp only [hstack] at hadd
      obtain rfl := Option.some.inj hadd
      cases hroot : d.root with
      | some r => simpa [hroot] using h
      | none =>
          simp only [hroot] at h
          refine Grows.mono fs ?_ h
          rintro ns ⟨kids, more, rfl, -⟩
          exact ⟨n :: kids, more, by simp, hQ kids⟩

/-- Tokens that open and close nothing. -/
def Token.Quiet : Token → Prop
  | .openTag _ | .emptyTag _ | .closeTag _ => False
  | _ => True

/-- A quiet token adds a character, or nothing. -/
theorem take_quiet {t : Token} {d d' : Doc} (ht : t.Quiet) (htake : d.take t = some d') :
    (d'.stack = d.stack ∧ d'.root = d.root) ∨ ∃ n, d.add n = some d' := by
  cases t with
  | white c =>
      rw [Doc.take] at htake
      split at htake
      · exact Or.inl (by rw [Option.some.inj htake]; exact ⟨rfl, rfl⟩)
      · exact Or.inr ⟨_, htake⟩
  | char c =>
      rw [Doc.take] at htake
      split at htake
      · cases htake
      · exact Or.inr ⟨_, htake⟩
  | skipped =>
      rw [Doc.take] at htake
      split at htake
      · exact Or.inl (by rw [Option.some.inj htake]; exact ⟨rfl, rfl⟩)
      · cases htake
  | inside =>
      rw [Doc.take] at htake
      split at htake
      · cases htake
      · exact Or.inl (by rw [Option.some.inj htake]; exact ⟨rfl, rfl⟩)
  | doctype external =>
      rw [Doc.take] at htake
      split at htake
      · exact Or.inl (by rw [← Option.some.inj htake]; exact ⟨rfl, rfl⟩)
      · cases htake
  | openTag tag => exact ht.elim
  | emptyTag tag => exact ht.elim
  | closeTag name => exact ht.elim

theorem leads_quiet {Q : List Node → Prop} : ∀ {ts : List Token} {d d' : Doc} {root : Node},
    (∀ t ∈ ts, t.Quiet) → ts.foldlM Doc.take d = some d' → Leads Q d' root →
    Leads (fun _ => True) d root
  | [], d, d', root, _, hrun, h => by
      obtain rfl := Option.some.inj hrun
      exact h.mono fun _ _ => trivial
  | t :: ts, d, d', root, hts, hrun, h => by
      rw [List.forall_mem_cons] at hts
      rw [List.foldlM_cons, Option.bind_eq_bind, Option.bind_eq_some_iff] at hrun
      obtain ⟨e, htake, hrest⟩ := hrun
      have he := leads_quiet hts.2 hrest h
      rcases take_quiet hts.1 htake with ⟨hstack, hroot⟩ | ⟨n, hadd⟩
      · unfold Leads at he ⊢
        rwa [hstack, hroot] at he
      · exact leads_add (fun _ => trivial) hadd he

theorem leads_open {tag : Tag} {d d' : Doc} {root : Node}
    (htake : d.take (.openTag tag) = some d') (h : Leads (fun _ => True) d' root) :
    Leads (Starts (some tag)) d root := by
  rw [Doc.take] at htake
  split at htake
  · cases htake
  · obtain rfl := Option.some.inj htake
    unfold Leads at h ⊢
    cases hroot : d.root with
    | some r => simpa [hroot] using h
    | none =>
        simp only [hroot] at h
        refine Grows.mono d.stack ?_ h
        rintro ns ⟨kids, more, rfl, -⟩
        exact ⟨_, _, more, rfl, List.prefix_rfl⟩

/-- An end tag completes an element, and the one around it has it as a child
from then on. -/
theorem leads_close {name : Text} {d d' : Doc} {root : Node}
    (htake : d.take (.closeTag name) = some d') (h : Leads (fun _ => True) d' root) :
    Leads (fun _ => True) d root := by
  rw [Doc.take] at htake
  cases hstack : d.stack with
  | nil => simp [hstack] at htake
  | cons f fs =>
      simp only [hstack] at htake
      split at htake
      · have hadd := leads_add (Q := fun ns => ∃ kids more,
          ns = .element f.name f.attrs (f.children ++ kids) :: more ∧ True)
          (fun more => ⟨[], more, by rw [List.append_nil], trivial⟩) htake h
        unfold Leads at hadd ⊢
        rw [hstack]
        exact hadd
      · cases htake

/-! ## Steps of the tokenizer -/

/-- The tag that is being read, once its name is complete. -/
def Mode.tag? : Mode → Option Tag
  | .tagSpace tag | .attrName tag _ | .attrEq tag _ | .attrQuote tag _ | .attrValue tag _ _ _
  | .attrRef tag _ _ _ _ | .attrEnd tag | .tagSlash tag => some tag
  | _ => none

/-- What a character can do to the tag that is being read. -/
inductive LexStep : Option Tag → List Token → Option Tag → Prop
  | quiet {ts : List Token} {tag? : Option Tag} (h : ∀ t ∈ ts, t.Quiet) : LexStep none ts tag?
  | attrs {tag tag' : Tag} {ts : List Token} (hname : tag'.name = tag.name)
      (hattrs : tag.attrs <+: tag'.attrs) (h : ts = [] ∨ ts = [.skipped]) :
      LexStep (some tag) ts (some tag')
  | openTag {tag : Tag} : LexStep (some tag) [.openTag tag] none
  | openName {tag : Tag} : LexStep none [.openTag tag] none
  | emptyTag {tag : Tag} : LexStep (some tag) [.emptyTag tag] none
  | closeTag {name : Text} : LexStep none [.closeTag name] none

theorem LexStep.same {tag : Tag} : LexStep (some tag) [] (some tag) :=
  .attrs rfl List.prefix_rfl (Or.inl rfl)

theorem expand_cases {name : Text} {t : Token} (h : expand name = some t) :
    (∃ c, t = .char c) ∨ t = .skipped := by
  have hchar : ∀ n, charRef? n = some t → ∃ c, t = .char c := by
    intro n hn
    simp only [charRef?] at hn
    split at hn
    · exact ⟨_, (Option.some.inj hn).symm⟩
    · cases hn
  unfold expand at h
  split at h
  · obtain ⟨n, -, hn⟩ := Option.bind_eq_some_iff.mp h
    exact Or.inl (hchar n hn)
  · obtain ⟨n, -, hn⟩ := Option.bind_eq_some_iff.mp h
    exact Or.inl (hchar n hn)
  · repeat' split at h
    all_goals first
      | exact Or.inl ⟨_, (Option.some.inj h).symm⟩
      | exact Or.inr (Option.some.inj h).symm
      | cases h

theorem lexTag_step {tag : Tag} {space : Bool} {c : Char} {m : Mode} {ts : List Token}
    (h : lexTag tag space c = some (m, ts)) : LexStep (some tag) ts m.tag? := by
  unfold lexTag at h
  repeat' split at h
  all_goals cases h
  · exact .same
  · exact .openTag
  · exact .same
  · exact .same

/-- The same, after a name that is complete only now. -/
theorem lexTag_step_name {tag : Tag} {c : Char} {m : Mode} {ts : List Token}
    (h : lexTag tag false c = some (m, ts)) : LexStep none ts m.tag? := by
  unfold lexTag at h
  repeat' split at h
  all_goals cases h
  · exact .quiet nofun
  · exact .openName
  · exact .quiet nofun
  · next hspace => cases hspace

/-- One character in any mode does one of these things to the tag that is being
read. -/
theorem lex_step {m m' : Mode} {c : Char} {ts : List Token} (h : lex m c = some (m', ts)) :
    LexStep m.tag? ts m'.tag? := by
  cases m with
  | content n =>
      simp only [lex] at h
      repeat' split at h
      all_goals cases h
      all_goals exact .quiet (by simp [Token.Quiet])
  | reference name =>
      simp only [lex] at h
      split at h
      · obtain ⟨t, ht, heq⟩ := Option.map_eq_some_iff.mp h
        cases heq
        refine .quiet (List.forall_mem_singleton.mpr ?_)
        rcases expand_cases ht with ⟨c, rfl⟩ | rfl <;> trivial
      · split at h <;> cases h
        exact .quiet nofun
  | tagName name =>
      simp only [lex] at h
      split at h
      · cases h
        exact .quiet nofun
      · exact lexTag_step_name h
  | tagSpace tag => exact lexTag_step h
  | attrEnd tag => exact lexTag_step h
  | attrValue tag attr quote value =>
      simp only [lex] at h
      repeat' split at h
      all_goals cases h
      · exact .attrs rfl (List.prefix_append _ _) (Or.inl rfl)
      all_goals exact .same
  | attrRef tag attr quote value name =>
      simp only [lex] at h
      split at h
      · split at h
        · cases h
          exact .same
        · next t hne ht =>
            cases h
            rcases expand_cases ht with ⟨d, rfl⟩ | rfl
            · exact absurd rfl (hne d)
            · exact .attrs rfl List.prefix_rfl (Or.inr rfl)
        · cases h
      · split at h <;> cases h
        exact .same
  | attrName tag attr =>
      simp only [lex] at h
      repeat' split at h
      all_goals cases h
      all_goals exact .same
  | attrEq tag attr =>
      simp only [lex] at h
      repeat' split at h
      all_goals cases h
      all_goals exact .same
  | attrQuote tag attr =>
      simp only [lex] at h
      repeat' split at h
      all_goals cases h
      all_goals exact .same
  | tagSlash tag =>
      simp only [lex] at h
      split at h <;> cases h
      exact .emptyTag
  | closeName name =>
      simp only [lex] at h
      repeat' split at h
      all_goals cases h
      · exact .quiet nofun
      · exact .quiet nofun
      · exact .closeTag
  | closeSpace name =>
      simp only [lex] at h
      repeat' split at h
      all_goals cases h
      · exact .quiet nofun
      · exact .closeTag
  | cdata text =>
      simp only [lex] at h
      split at h <;> cases h
      · refine .quiet ?_
        intro t ht
        obtain ⟨c, -, rfl⟩ := List.mem_map.mp ht
        trivial
      · exact .quiet nofun
  | doctype text quote =>
      simp only [lex] at h
      split at h
      · cases h
        exact .quiet nofun
      · split at h
        · obtain ⟨external, -, heq⟩ := Option.map_eq_some_iff.mp h
          cases heq
          exact .quiet (List.forall_mem_singleton.mpr trivial)
        · split at h <;> cases h
          exact .quiet nofun
  | markup | bang | dash | comment | cdataStart | piTarget | piEnd | pi | doctypeStart =>
      simp only [lex] at h
      repeat' split at h
      all_goals cases h
      all_goals exact .quiet (by simp [Token.Quiet])

/-! ## Runs -/

theorem leads_tokens {tag? tag?' : Option Tag} {ts : List Token} {d d' : Doc} {root : Node}
    (hstep : LexStep tag? ts tag?') (hrun : ts.foldlM Doc.take d = some d')
    (h : Leads (Starts tag?') d' root) : Leads (Starts tag?) d root := by
  cases hstep with
  | quiet hts => exact leads_quiet hts hrun h
  | attrs hname hattrs hts =>
      have hdoc : d'.stack = d.stack ∧ d'.root = d.root := by
        rcases hts with rfl | rfl
        · rw [Option.some.inj hrun]
          exact ⟨rfl, rfl⟩
        · have htake := take_single hrun
          rw [Doc.take] at htake
          split at htake
          · rw [← Option.some.inj htake]
            exact ⟨rfl, rfl⟩
          · cases htake
      unfold Leads at h
      rw [hdoc.1, hdoc.2] at h
      refine Leads.mono ?_ h
      rintro ns ⟨attrs, kids, more, rfl, hhead⟩
      exact ⟨attrs, kids, more, by rw [hname], hattrs.trans hhead⟩
  | openTag => exact leads_open (take_single hrun) h
  | openName => exact (leads_open (take_single hrun) h).mono fun _ _ => trivial
  | emptyTag =>
      refine leads_add ?_ (take_single hrun) h
      intro more
      exact ⟨_, _, more, rfl, List.prefix_rfl⟩
  | closeTag => exact leads_close (take_single hrun) h

/-- **What has been read stays read**: what is known of the root after part of
a document still holds at the end of it, whatever has come between. -/
theorem run_leads : ∀ {cs : Text} {s s' : State} {root : Node}, Runs.run step s cs = some s' →
    finish s' = some root → Leads (Starts s.mode.tag?) s.doc root
  | [], s, s', root, hrun, hfin => by
      obtain rfl := Option.some.inj hrun
      unfold finish at hfin
      split at hfin
      · unfold Leads
        rw [hfin]
      · cases hfin
  | c :: cs, s, s', root, hrun, hfin => by
      obtain ⟨t, hst, htu⟩ := Runs.run_cons.mp hrun
      have ht := run_leads htu hfin
      obtain ⟨ts, hlex, hdoc⟩ := step_eq hst
      exact leads_tokens (lex_step hlex) hdoc ht

end Xml
