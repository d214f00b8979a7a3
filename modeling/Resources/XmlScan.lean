import Mathlib.Data.List.Infix
import Resources.XmlTree

/-!
# Reading attribute values and CDATA sections

What the parser makes of a text between the quotes of an attribute
(`attr_field`, for any text; `attr_read`, for one that stands for itself)
and of a text in a CDATA section (`cdata_section`). For any text the
point is a count: normalization and references never lengthen a value,
and a reference shortens it by two or more (`Lost`).
-/

namespace Xml

/-! ## Line ends -/

theorem eol_cons {c : Char} (h : c ≠ '\r') (cs : Text) : eol (c :: cs) = c :: eol cs := by
  rw [eol]
  · rw [if_neg h]
  · rintro d rfl
    exact absurd rfl h

theorem eol_append {a b : Text} (h : b.head? ≠ some '\n') : eol (a ++ b) = eol a ++ eol b := by
  induction a using eol.induct with
  | case1 => rfl
  | case2 cs ih =>
      rw [List.cons_append, List.cons_append, eol, ih, eol]
      rfl
  | case3 c cs hcs ih =>
      rw [List.cons_append, eol, ih, eol, List.cons_append]
      · exact hcs
      · intro d hc heq
        subst hc
        cases cs with
        | nil =>
            rw [List.nil_append] at heq
            rw [heq] at h
            exact h rfl
        | cons e es =>
            obtain ⟨rfl, -⟩ := List.cons.inj heq
            exact hcs es rfl rfl

theorem eol_append_of_not_mem {a : Text} (ha : '\r' ∉ a) (b : Text) :
    eol (a ++ b) = a ++ eol b := by
  induction a with
  | nil => rfl
  | cons c a ih =>
      rw [List.mem_cons, not_or] at ha
      rw [List.cons_append, eol_cons (Ne.symm ha.1), ih ha.2, List.cons_append]

theorem eol_append_cons {c : Char} (hc : c ≠ '\n') (a b : Text) :
    eol (a ++ c :: b) = eol a ++ eol (c :: b) :=
  eol_append (by simpa using hc)

theorem eol_append_append {t : Text} (ht : t ≠ [] ∧ t.head? ≠ some '\n') (a b : Text) :
    eol (a ++ (t ++ b)) = eol a ++ eol (t ++ b) := by
  refine eol_append ?_
  rw [List.head?_append_of_ne_nil t ht.1]
  exact ht.2

theorem eol_of_not_mem {a : Text} (h : '\r' ∉ a) : eol a = a := by
  simpa [eol] using eol_append_of_not_mem h []

theorem length_eol_le (cs : Text) : (eol cs).length ≤ cs.length := by
  induction cs using eol.induct with
  | case1 => exact le_refl 0
  | case2 cs ih =>
      rw [eol]
      simp only [List.length_cons]
      omega
  | case3 c cs hcs ih =>
      rw [eol]
      · simp only [List.length_cons]
        omega
      · exact hcs

/-! ## The end of a CDATA section -/

def terminator : Text := [']', ']', '>']

/-- A text that can stand in a CDATA section: the terminator is nowhere in it.
-/
def NoTerm (cs : Text) : Prop := ¬terminator <:+: cs

instance (cs : Text) : Decidable (NoTerm cs) := inferInstanceAs (Decidable (¬terminator <:+: cs))

theorem noTerm_cons {c : Char} {cs : Text} (hc : c ≠ ']') : NoTerm (c :: cs) ↔ NoTerm cs := by
  unfold NoTerm
  rw [List.infix_cons_iff, not_or]
  refine and_iff_right ?_
  intro hhead
  exact hc (List.cons_prefix_cons.mp hhead).1.symm

theorem noTerm_append {a cs : Text} (ha : ']' ∉ a) : NoTerm (a ++ cs) ↔ NoTerm cs := by
  induction a with
  | nil => rfl
  | cons c a ih =>
      rw [List.mem_cons, not_or] at ha
      rw [List.cons_append, noTerm_cons (Ne.symm ha.1), ih ha.2]

section sides
variable {α : Type*} {c : α}

theorem prefix_append_cons {b : List α} : ∀ {t a : List α}, c ∉ t → t <+: a ++ c :: b → t <+: a
  | [], _, _, _ => List.nil_prefix
  | d :: t, [], hc, h => by
      obtain ⟨rfl, -⟩ := List.cons_prefix_cons.mp h
      exact absurd List.mem_cons_self hc
  | d :: t, e :: a, hc, h => by
      obtain ⟨rfl, htail⟩ := List.cons_prefix_cons.mp h
      exact List.cons_prefix_cons.mpr
        ⟨rfl, prefix_append_cons (fun hmem => hc (List.mem_cons_of_mem _ hmem)) htail⟩

/-- A list that does not contain `c` is on one side of it. -/
theorem infix_append_cons {t b : List α} (hc : c ∉ t) : ∀ {a : List α}, t <:+: a ++ c :: b →
    t <:+: a ∨ t <:+: b
  | [], h => by
      rcases List.infix_cons_iff.mp h with hhead | hin
      · exact Or.inl (prefix_append_cons (a := []) hc hhead).isInfix
      · exact Or.inr hin
  | d :: a, h => by
      rcases List.infix_cons_iff.mp h with hhead | hin
      · exact Or.inl (prefix_append_cons hc hhead).isInfix
      · exact (infix_append_cons hc hin).imp List.infix_cons id

end sides

theorem noTerm_append_cons {a b : Text} {c : Char} (hc : c ∉ terminator) (ha : NoTerm a)
    (hb : NoTerm b) : NoTerm (a ++ c :: b) :=
  fun h => (infix_append_cons hc h).elim ha hb

/-- A character other than a line feed stands for itself. -/
theorem eol_eq_cons {cs u : Text} {c : Char} (hc : c ≠ '\n') (h : eol cs = c :: u) :
    ∃ v, cs = c :: v ∧ eol v = u := by
  unfold eol at h
  split at h
  · cases h
  · exact absurd (List.cons.inj h).1.symm hc
  · obtain ⟨hhead, htail⟩ := List.cons.inj h
    split at hhead
    · exact absurd hhead.symm hc
    · subst hhead
      exact ⟨_, rfl, htail⟩

theorem prefix_eol {t : Text} (ht : '\n' ∉ t) : ∀ {cs : Text}, t <+: eol cs → t <+: cs := by
  induction t with
  | nil => exact fun _ => List.nil_prefix
  | cons c t ih =>
      rintro cs ⟨u, hu⟩
      rw [List.mem_cons, not_or] at ht
      obtain ⟨v, rfl, hv⟩ := eol_eq_cons (Ne.symm ht.1) hu.symm
      exact List.cons_prefix_cons.mpr ⟨rfl, ih ht.2 ⟨u, hv.symm⟩⟩

/-- Normalization brings in no terminator, so that a text is as safe after it
as before. -/
theorem noTerm_eol {cs : Text} (h : NoTerm cs) : NoTerm (eol cs) := by
  induction cs using eol.induct with
  | case1 => exact h
  | case2 cs ih =>
      rw [eol, noTerm_cons (by decide)]
      rw [noTerm_cons (by decide), noTerm_cons (by decide)] at h
      exact ih h
  | case3 c cs hcs ih =>
      have htail : NoTerm cs := fun hin => h (List.infix_cons hin)
      intro hin
      have hhead : ¬terminator <+: eol (c :: cs) := fun hp =>
        h (prefix_eol (by decide) hp).isInfix
      rw [eol] at hin hhead
      · rcases List.infix_cons_iff.mp hin with hp | hi
        · exact hhead hp
        · exact ih htail hi
      · exact hcs
      · exact hcs

/-! ## CDATA sections -/

theorem run_isChar : ∀ {cs : Text} {s s' : State}, Runs.run step s cs = some s' →
    ∀ c ∈ cs, isChar c = true
  | [], _, _, _ => nofun
  | c :: cs, s, s', hrun => by
      obtain ⟨t, hst, htu⟩ := Runs.run_cons.mp hrun
      refine List.forall_mem_cons.mpr ⟨?_, run_isChar htu⟩
      unfold step at hst
      split at hst
      · assumption
      · cases hst

/-- The section goes on until its terminator. -/
theorem cdata_run {d : Doc} : ∀ {cs acc : Text}, (∀ c ∈ cs, isChar c = true) → NoTerm (acc ++ cs) →
    Runs.run step ⟨.cdata acc, d⟩ cs = some ⟨.cdata (acc ++ cs), d⟩
  | [], acc, _, _ => by rw [List.append_nil]; rfl
  | c :: cs, acc, hcs, hterm => by
      rw [List.forall_mem_cons] at hcs
      have hopen : ¬(c = '>' ∧ [']', ']'] <:+ acc) := by
        rintro ⟨rfl, pre, rfl⟩
        exact hterm ⟨pre, cs, by simp [terminator]⟩
      have hstep : step ⟨.cdata acc, d⟩ c = some ⟨.cdata (acc ++ [c]), d⟩ := by
        rw [step, if_pos hcs.1, lex, if_neg hopen]
        rfl
      rw [List.append_cons] at hterm ⊢
      exact Runs.run_cons.mpr ⟨_, hstep, cdata_run hcs.2 hterm⟩

theorem take_chars {f : Frame} {fs : List Frame} {root : Option Node} {dt : Option Bool} {sa : Bool} :
    ∀ (text : Text) (kids : List Node),
    (text.map Token.char).foldlM Doc.take ⟨{ f with children := kids } :: fs, root, dt, sa⟩ =
      some ⟨{ f with children := kids ++ text.map .char } :: fs, root, dt, sa⟩
  | [], kids => by rw [List.map_nil, List.map_nil, List.append_nil]; rfl
  | c :: text, kids => by
      rw [List.map_cons, List.foldlM_cons]
      exact (take_chars text _).trans (by rw [List.map_cons, ← List.append_cons])

/-- A section adds its text to the element it is in. -/
theorem cdata_section {f : Frame} {fs : List Frame} {root : Option Node} {dt : Option Bool}
    {sa : Bool} {text : Text} (hchar : ∀ c ∈ text, isChar c = true) (hterm : NoTerm text) :
    Runs.run step ⟨.cdata [], ⟨f :: fs, root, dt, sa⟩⟩ (text ++ terminator) =
      some ⟨.content 0, ⟨{ f with children := f.children ++ text.map .char } :: fs, root, dt, sa⟩⟩ := by
  have hbracket : ∀ (acc : Text) (d : Doc),
      step ⟨.cdata acc, d⟩ ']' = some ⟨.cdata (acc ++ [']']), d⟩ := fun _ _ => rfl
  have hclose : ∀ d : Doc, lex (.cdata (text ++ [']'] ++ [']'])) '>' =
      some (.content 0, text.map .char) := by
    intro d
    rw [lex, if_pos ⟨rfl, ⟨text, by simp⟩⟩]
    simp
  refine Runs.run_append.mpr ⟨_, cdata_run hchar hterm, ?_⟩
  refine Runs.run_cons.mpr ⟨_, hbracket _ _, Runs.run_cons.mpr ⟨_, hbracket _ _, ?_⟩⟩
  rw [Runs.run_singleton, step, if_pos (by decide), List.nil_append]
  simp only [hclose ⟨f :: fs, root, dt, sa⟩, Option.bind_eq_bind, Option.bind_some]
  rw [take_chars text f.children]
  rfl

/-! ## Attribute values -/

/-- What reading `raw` yields: as many characters, none of them a carriage
return, or at least two less. -/
def Lost (raw value : Text) : Prop :=
  (value.length = raw.length ∧ '\r' ∉ value) ∨ value.length + 2 ≤ raw.length

theorem Lost.le {raw value : Text} (h : Lost raw value) : value.length ≤ raw.length := by
  rcases h with ⟨h, -⟩ | h <;> omega

theorem Lost.cons {raw value : Text} {c d : Char} (hd : d ≠ '\r') (h : Lost raw value) :
    Lost (c :: raw) (d :: value) := by
  rcases h with ⟨hlen, hmem⟩ | h
  · exact Or.inl ⟨congrArg (· + 1) hlen, List.not_mem_cons_of_ne_of_not_mem (Ne.symm hd) hmem⟩
  · exact Or.inr (by simp only [List.length_cons]; omega)

theorem attrValue_close {tag : Tag} {attr value : Text} {d : Doc} {s : State}
    (hst : step ⟨.attrValue tag attr '"' value, d⟩ '"' = some s) :
    s = ⟨.attrEnd { tag with attrs := tag.attrs ++ [(attr, value)] }, d⟩ := by
  obtain ⟨ts, hlex, hdoc⟩ := step_eq hst
  simp only [lex, if_true] at hlex
  split at hlex
  · cases hlex
  · cases s
    cases hlex
    cases hdoc
    rfl

theorem attrValue_step {tag : Tag} {attr value : Text} {d : Doc} {s : State} {c : Char}
    (hc : c ≠ '"') (hst : step ⟨.attrValue tag attr '"' value, d⟩ c = some s) :
    s = ⟨.attrRef tag attr '"' value [], d⟩ ∨
      ∃ e, e ≠ '\r' ∧ s = ⟨.attrValue tag attr '"' (value ++ [e]), d⟩ := by
  obtain ⟨ts, hlex, hdoc⟩ := step_eq hst
  simp only [lex, if_neg hc] at hlex
  cases s
  split at hlex
  · cases hlex
  · split at hlex
    · cases hlex
      cases hdoc
      exact Or.inl rfl
    · cases hlex
      cases hdoc
      refine Or.inr ⟨_, ?_, rfl⟩
      split
      · decide
      · next hspace =>
          rintro rfl
          exact hspace rfl

/-- A reference stands for one character at most. -/
theorem attrRef_step {tag : Tag} {attr value name : Text} {d : Doc} {s : State} {c : Char}
    (hst : step ⟨.attrRef tag attr '"' value name, d⟩ c = some s) :
    (c = ';' ∧ name ≠ [] ∧ ∃ t : Text, t.length ≤ 1 ∧ s = ⟨.attrValue tag attr '"' (value ++ t), d⟩) ∨
      (c ≠ '"' ∧ s = ⟨.attrRef tag attr '"' value (name ++ [c]), d⟩) := by
  obtain ⟨ts, hlex, hdoc⟩ := step_eq hst
  simp only [lex] at hlex
  cases s
  split at hlex
  · next hc =>
    left
    have hne : ∀ t, expand name = some t → name ≠ [] := by
      rintro t ht rfl
      cases ht
    split at hlex
    · next e he =>
        cases hlex
        cases hdoc
        exact ⟨hc, hne _ he, [e], le_refl 1, rfl⟩
    · next t hchar ht =>
        cases hlex
        rcases expand_cases ht with ⟨e, rfl⟩ | rfl
        · exact absurd rfl (hchar e)
        · have htake := take_single hdoc
          rw [Doc.take] at htake
          split at htake
          · cases htake
            exact ⟨hc, hne _ ht, [], Nat.zero_le 1, by rw [List.append_nil]⟩
          · cases htake
    · cases hlex
  · right
    split at hlex
    · next hname =>
        cases hlex
        cases hdoc
        refine ⟨?_, rfl⟩
        rintro rfl
        exact absurd hname (by decide)
    · cases hlex

/-- From the opening quote on, and from inside a reference on: the value
is read up to the closing quote. -/
theorem attr_scan {tag : Tag} {attr : Text} {d : Doc} {w : Text} {s : State} :
    ∀ {raw : Text}, '"' ∉ raw → ∀ {value : Text},
    (Runs.run step ⟨.attrValue tag attr '"' value, d⟩ (raw ++ '"' :: w) = some s →
      ∃ t, Lost raw t ∧
        Runs.run step ⟨.attrEnd { tag with attrs := tag.attrs ++ [(attr, value ++ t)] }, d⟩ w
          = some s) ∧
    (∀ name, Runs.run step ⟨.attrRef tag attr '"' value name, d⟩ (raw ++ '"' :: w) = some s →
      ∃ t, t.length + 1 ≤ raw.length + name.length ∧
        Runs.run step ⟨.attrEnd { tag with attrs := tag.attrs ++ [(attr, value ++ t)] }, d⟩ w
          = some s)
  | [], _, value => by
      constructor
      · intro hrun
        obtain ⟨u, hst, huw⟩ := Runs.run_cons.mp hrun
        refine ⟨[], Or.inl ⟨rfl, List.not_mem_nil⟩, ?_⟩
        rw [List.append_nil, ← attrValue_close hst]
        exact huw
      · intro name hrun
        obtain ⟨u, hst, -⟩ := Runs.run_cons.mp hrun
        rcases attrRef_step hst with ⟨hc, -⟩ | ⟨hc, -⟩
        · exact absurd hc (by decide)
        · exact absurd rfl hc
  | c :: raw, hraw, value => by
      rw [List.mem_cons, not_or] at hraw
      constructor
      · intro hrun
        obtain ⟨u, hst, huw⟩ := Runs.run_cons.mp hrun
        rcases attrValue_step (Ne.symm hraw.1) hst with rfl | ⟨e, he, rfl⟩
        · obtain ⟨t, hlen, hrest⟩ := (attr_scan hraw.2).2 [] huw
          refine ⟨t, Or.inr ?_, hrest⟩
          simp only [List.length_nil, List.length_cons] at hlen ⊢
          omega
        · obtain ⟨t, hlost, hrest⟩ := (attr_scan hraw.2).1 huw
          refine ⟨e :: t, hlost.cons he, ?_⟩
          rwa [List.append_assoc] at hrest
      · intro name hrun
        obtain ⟨u, hst, huw⟩ := Runs.run_cons.mp hrun
        rcases attrRef_step hst with ⟨-, hname, t₁, hone, rfl⟩ | ⟨-, rfl⟩
        · obtain ⟨t, hlost, hrest⟩ := (attr_scan hraw.2).1 huw
          refine ⟨t₁ ++ t, ?_, by rwa [← List.append_assoc]⟩
          have hle := hlost.le
          have hpos := List.length_pos_of_ne_nil hname
          rw [List.length_append, List.length_cons]
          omega
        · obtain ⟨t, hlen, hrest⟩ := (attr_scan hraw.2).2 _ huw
          refine ⟨t, ?_, hrest⟩
          simp only [List.length_append, List.length_cons, List.length_nil] at hlen ⊢
          omega

/-- **The value of any text** between quotes, up to the first quote in it;
`suffix` is what a template writes after the text. -/
theorem attr_field {tag : Tag} {attr : Text} {d : Doc} {v suffix w : Text} {s : State}
    (hsuffix : '"' ∉ suffix)
    (hrun : Runs.run step ⟨.attrValue tag attr '"' [], d⟩ (v ++ suffix ++ '"' :: w) = some s) :
    ∃ raw t w', Lost raw t ∧ ((raw = v ++ suffix ∧ w' = w) ∨ raw.length < v.length) ∧
      Runs.run step ⟨.attrEnd { tag with attrs := tag.attrs ++ [(attr, t)] }, d⟩ w' = some s := by
  by_cases hv : '"' ∈ v
  · obtain ⟨raw, rest, rfl, hraw⟩ := List.eq_append_cons_of_mem hv
    rw [List.append_assoc, List.append_assoc, List.cons_append] at hrun
    obtain ⟨t, hlost, hrest⟩ := (attr_scan hraw).1 hrun
    refine ⟨raw, t, _, hlost, Or.inr ?_, hrest⟩
    simp
  · obtain ⟨t, hlost, hrest⟩ := (attr_scan (List.not_mem_append hv hsuffix)).1 hrun
    exact ⟨_, t, w, hlost, Or.inl ⟨rfl, rfl⟩, hrest⟩

/-- A value that is as long as the text says that the text had no quote in it. -/
theorem attr_whole {tag : Tag} {attr : Text} {d : Doc} {v w : Text} {s : State}
    (hrun : Runs.run step ⟨.attrValue tag attr '"' [], d⟩ (v ++ '"' :: w) = some s) :
    ∃ t w', (v.length ≤ t.length → w' = w) ∧
      Runs.run step ⟨.attrEnd { tag with attrs := tag.attrs ++ [(attr, t)] }, d⟩ w' = some s := by
  obtain ⟨raw, t, w', hlost, hraw, hrest⟩ :=
    attr_field (v := v) (w := w) List.not_mem_nil (by rwa [List.append_nil])
  refine ⟨t, w', ?_, hrest⟩
  intro hlen
  rcases hraw with ⟨-, hw⟩ | hshort
  · exact hw
  · have hle := hlost.le
    omega

/-- Characters that stand for themselves in an attribute value between double
quotes. -/
def AttrChar (c : Char) : Prop := isChar c = true ∧ c ∉ ['"', '<', '&', '\t', '\n', '\r']

/-- A text of such characters is read as it is. -/
theorem attr_read {tag : Tag} {attr : Text} {d : Doc} : ∀ {v value : Text},
    (∀ c ∈ v, AttrChar c) →
    Runs.run step ⟨.attrValue tag attr '"' value, d⟩ v = some ⟨.attrValue tag attr '"' (value ++ v), d⟩
  | [], value, _ => by rw [List.append_nil]; rfl
  | c :: v, value, hv => by
      rw [List.forall_mem_cons] at hv
      obtain ⟨⟨hchar, hc⟩, hv⟩ := hv
      simp only [List.mem_cons, List.not_mem_nil, or_false, not_or] at hc
      obtain ⟨hquote, hlt, hamp, htab, hlf, hcr⟩ := hc
      have hstep : step ⟨.attrValue tag attr '"' value, d⟩ c =
          some ⟨.attrValue tag attr '"' (value ++ [c]), d⟩ := by
        rw [step, if_pos hchar, lex, if_neg hquote, if_neg hlt, if_neg hamp]
        by_cases hspace : c = ' '
        · subst hspace
          rfl
        · have hnot : isSpace c = false := by simp [isSpace, hspace, htab, hlf, hcr]
          simp [hnot]
      rw [List.append_cons]
      exact Runs.run_cons.mpr ⟨_, hstep, attr_read hv⟩

/-- The same from the opening quote to the closing one, for an attribute that
the tag does not have yet. -/
theorem attr_read_whole {tag : Tag} {attr : Text} (hattr : attr ∉ tag.attrs.map Prod.fst) {d : Doc}
    {v : Text} (hv : ∀ c ∈ v, AttrChar c) (w : Text) :
    Runs.run step ⟨.attrValue tag attr '"' [], d⟩ (v ++ '"' :: w) =
      Runs.run step ⟨.attrEnd { tag with attrs := tag.attrs ++ [(attr, v)] }, d⟩ w := by
  have hclose : step ⟨.attrValue tag attr '"' v, d⟩ '"' =
      some ⟨.attrEnd { tag with attrs := tag.attrs ++ [(attr, v)] }, d⟩ := by
    rw [step, if_pos (by decide), lex, if_pos rfl, if_neg hattr]
    rfl
  rw [Runs.run_skip (attr_read hv), List.nil_append, Runs.run, hclose, Option.bind_some]

end Xml
