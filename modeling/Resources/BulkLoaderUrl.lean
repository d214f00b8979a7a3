import Mathlib.Data.List.TakeWhile

/-!
# `BulkLoader.substituteURLString`

A url may have variables in braces. The code looks for all of them first,
and then puts the url together from what is between them and what they
stand for. A `Template` is a url cut at its variables, and every url is
one: what comes out is the template with its variables replaced, up to a
number of them that is thought to be enough (`substitutes_variables`).

What counts as a blank is left to the player.
-/

namespace Resources

namespace BulkLoader

abbrev Text := List Char

variable (isSpace : Char → Bool) (substitutions : Text → Option Text)

/-! ## The code -/

/-- An entry of the array `matches`: where the match begins and ends, and what
it changes to, which may be undefined. -/
structure Match where
  start : ℕ
  stop : ℕ
  changeTo : Option Text

/-- `subRegex.exec(raw)`, from `lastIndex` on: where the match begins, and
its text. -/
def exec (raw : Text) (lastIndex : ℕ) : Option (ℕ × Text) :=
  let text := (raw.drop lastIndex).takeWhile (· ≠ '{')
  match (raw.drop lastIndex).dropWhile (· ≠ '{') with
  | [] => none
  | _ :: inner =>
      if '}' ∈ inner then
        some (lastIndex + text.length, '{' :: inner.takeWhile (· ≠ '}') ++ ['}'])
      else none

/-- The first brace of each kind goes, and all blanks. -/
def varName (var_name : Text) : Text :=
  ((var_name.erase '{').erase '}').filter fun c => !isSpace c

/-- The loop over the matches. The number is how many there may be. -/
def findMatches (raw : Text) : ℕ → ℕ → List Match
  | 0, _ => []
  | runs + 1, lastIndex =>
      match exec raw lastIndex with
      | none => []
      | some (index, var_name) =>
          { start := index
            stop := index + var_name.length
            changeTo := substitutions (varName isSpace var_name) } ::
            findMatches raw runs (index + var_name.length)

def substring (raw : Text) (startIndex endIndex : ℕ) : Text := (raw.take endIndex).drop startIndex

/-- What is pushed for each match, and the tail. -/
def pushAll (raw : Text) : ℕ → List Match → List (Option Text)
  | lastEnd, [] => [some (raw.drop lastEnd)]
  | lastEnd, found :: more =>
      some (substring raw lastEnd found.start) :: found.changeTo :: pushAll raw found.stop more

def join (buffer : List (Option Text)) : Text := buffer.flatMap (·.getD [])

/-- A loader has no substitutions as long as none are set; the url is then
returned as it is. The match with `numRuns > 400` is the last one. -/
def substituteURLString (raw : Text) : Option (Text → Option Text) → Text
  | none => raw
  | some substitutions =>
      let found := findMatches isSpace substitutions raw 401 0
      if found.isEmpty then raw else join (pushAll raw 0 found)

/-! ## Templates -/

/-- Texts, each with the variable that follows it, and what comes after the
last variable. -/
structure Template where
  parts : List (Text × Text)
  rest : Text
  texts : ∀ part ∈ parts, '{' ∉ part.1
  names : ∀ part ∈ parts, '}' ∉ part.2
  none_left : '}' ∉ rest.dropWhile (· ≠ '{')

/-- A variable as it is written. -/
def braced (name : Text) : Text := '{' :: name ++ ['}']

def value (name : Text) : Text := (substitutions (name.filter fun c => !isSpace c)).getD []

/-- The first `n` variables are replaced. -/
def expand (n : ℕ) (parts : List (Text × Text)) : Text :=
  ((parts.take n).flatMap fun part => part.1 ++ value isSpace substitutions part.2) ++
    (parts.drop n).flatMap fun part => part.1 ++ braced part.2

def Template.render (t : Template) : Text :=
  (t.parts.flatMap fun part => part.1 ++ braced part.2) ++ t.rest

/-! ## A match -/

section scan
variable {raw text name after rest : Text} {k : ℕ}

/-- The next match is the next variable: the text before it has no opening
brace, and its name has no closing one. -/
theorem exec_found (htext : '{' ∉ text) (hname : '}' ∉ name)
    (hraw : raw.drop k = text ++ (braced name ++ after)) :
    exec raw k = some (k + text.length, braced name) := by
  have hkeep : ∀ c ∈ text, decide (c ≠ '{') = true :=
    fun c hc => decide_eq_true (ne_of_mem_of_not_mem hc htext)
  have hinner : ∀ c ∈ name, decide (c ≠ '}') = true :=
    fun c hc => decide_eq_true (ne_of_mem_of_not_mem hc hname)
  have hbraced : braced name ++ after = '{' :: (name ++ '}' :: after) := by
    simp [braced]
  unfold exec
  rw [hraw, hbraced, List.takeWhile_append_of_pos hkeep, List.dropWhile_append_of_pos hkeep,
    List.dropWhile_cons_of_neg (by simp), List.takeWhile_cons_of_neg (by simp)]
  simp only [List.append_nil]
  rw [if_pos (List.mem_append_right _ List.mem_cons_self), List.takeWhile_append_of_pos hinner,
    List.takeWhile_cons_of_neg (by simp), List.append_nil]
  rfl

theorem exec_none (hrest : '}' ∉ (raw.drop k).dropWhile (· ≠ '{')) : exec raw k = none := by
  unfold exec
  simp only
  cases hdrop : (raw.drop k).dropWhile (· ≠ '{') with
  | nil => rfl
  | cons c inner =>
      rw [hdrop] at hrest
      exact if_neg fun hmem => hrest (List.mem_cons_of_mem c hmem)

theorem varName_braced (hname : '}' ∉ name) :
    varName isSpace (braced name) = name.filter fun c => !isSpace c := by
  unfold varName braced
  rw [List.cons_append, List.erase_cons_head, List.erase_append_right _ hname,
    List.erase_cons_head, List.append_nil]

theorem substring_found (hraw : raw.drop k = text ++ rest) :
    substring raw k (k + text.length) = text := by
  unfold substring
  rw [List.drop_take, hraw, Nat.add_sub_cancel_left, List.take_left]

theorem drop_found (hraw : raw.drop k = text ++ (braced name ++ after)) :
    raw.drop (k + text.length + (braced name).length) = after := by
  rw [Nat.add_assoc, ← List.drop_drop, hraw, ← List.append_assoc, ← List.length_append,
    List.drop_left]

end scan

/-! ## All of them -/

/-- Cut from some index on, the buffer has what is left of the template. -/
theorem join_findMatches (raw rest : Text) (hrest : '}' ∉ rest.dropWhile (· ≠ '{'))
    (parts : List (Text × Text)) : ∀ (runs k : ℕ), (∀ part ∈ parts, '{' ∉ part.1) →
      (∀ part ∈ parts, '}' ∉ part.2) →
      raw.drop k = (parts.flatMap fun part => part.1 ++ braced part.2) ++ rest →
      join (pushAll raw k (findMatches isSpace substitutions raw runs k)) =
        expand isSpace substitutions runs parts ++ rest := by
  have hstop : ∀ k, join (pushAll raw k []) = raw.drop k := fun k => List.append_nil _
  induction parts with
  | nil =>
      intro runs k _ _ hraw
      have hnone : findMatches isSpace substitutions raw runs k = [] := by
        cases runs with
        | zero => rfl
        | succ runs =>
            rw [findMatches, exec_none]
            rw [hraw]
            exact hrest
      rw [hnone, hstop, hraw]
      simp [expand]
  | cons part parts ih =>
      intro runs k htexts hnames hraw
      cases runs with
      | zero => exact (hstop k).trans hraw
      | succ runs =>
          obtain ⟨htext, htexts⟩ := List.forall_mem_cons.mp htexts
          obtain ⟨hname, hnames⟩ := List.forall_mem_cons.mp hnames
          rw [List.flatMap_cons, List.append_assoc, List.append_assoc] at hraw
          rw [findMatches, exec_found htext hname hraw]
          simp only [pushAll]
          have hmore := ih runs _ htexts hnames (drop_found hraw)
          rw [substring_found hraw, varName_braced isSpace hname]
          unfold join at hmore ⊢
          rw [List.flatMap_cons, List.flatMap_cons, hmore]
          simp [expand, value]

/-- Without matches the url is returned as it is. -/
theorem substituteURLString_eq (raw : Text) : substituteURLString isSpace raw (some substitutions) =
    join (pushAll raw 0 (findMatches isSpace substitutions raw 401 0)) := by
  unfold substituteURLString
  simp only
  split
  · next hempty =>
      rw [List.isEmpty_iff.mp hempty]
      exact (List.append_nil raw).symm
  · rfl

/-! ## Every url is a template -/

def Template.cons (text name : Text) (htext : '{' ∉ text) (hname : '}' ∉ name) (t : Template) :
    Template where
  parts := (text, name) :: t.parts
  rest := t.rest
  texts := List.forall_mem_cons.mpr ⟨htext, t.texts⟩
  names := List.forall_mem_cons.mpr ⟨hname, t.names⟩
  none_left := t.none_left

theorem Template.render_cons {text name : Text} (htext : '{' ∉ text) (hname : '}' ∉ name)
    (t : Template) : (t.cons text name htext hname).render = text ++ (braced name ++ t.render) := by
  simp [Template.render, Template.cons]

/-- Every url is a template: it is cut at its first variable, and so on. -/
theorem exists_template (raw : Text) : ∃ t : Template, t.render = raw := by
  induction hlen : raw.length using Nat.strongRecOn generalizing raw with
  | ind n ih =>
      -- where a brace is missing nothing is left to be replaced
      have hplain : '}' ∉ raw.dropWhile (· ≠ '{') → ∃ t : Template, t.render = raw := fun hnone =>
        ⟨⟨[], raw, nofun, nofun, hnone⟩, rfl⟩
      by_cases hopen : '{' ∈ raw
      · obtain ⟨text, inner, hraw, htext⟩ := List.eq_append_cons_of_mem hopen
        have hkeep : ∀ c ∈ text, decide (c ≠ '{') = true :=
          fun c hc => decide_eq_true (ne_of_mem_of_not_mem hc htext)
        by_cases hclose : '}' ∈ inner
        · obtain ⟨name, after, hinner, hname⟩ := List.eq_append_cons_of_mem hclose
          have hless : after.length < n := by
            rw [← hlen, hraw, hinner]
            simp only [List.length_append, List.length_cons]
            omega
          obtain ⟨t, ht⟩ := ih after.length hless after rfl
          refine ⟨t.cons text name htext hname, ?_⟩
          rw [Template.render_cons, ht, hraw, hinner]
          simp [braced]
        · refine hplain ?_
          rw [hraw, List.dropWhile_append_of_pos hkeep, List.dropWhile_cons_of_neg (by simp)]
          simp [hclose]
      · refine hplain ?_
        have hkeep : ∀ c ∈ raw, decide (c ≠ '{') = true :=
          fun c hc => decide_eq_true (ne_of_mem_of_not_mem hc hopen)
        rw [List.dropWhile_eq_nil_iff.mpr hkeep]
        exact List.not_mem_nil

/-- **Variables are replaced, and nothing else**: what is between them and
what comes after them stays, and so do variables after the 401st. Every
url is a template, so that this is what becomes of every url. Where there
are no substitutions the url stays as it is. -/
theorem substitutes_variables :
    (∀ t : Template, substituteURLString isSpace t.render (some substitutions) =
      expand isSpace substitutions 401 t.parts ++ t.rest) ∧
    (∀ raw : Text, ∃ t : Template, t.render = raw) ∧
    ∀ raw : Text, substituteURLString isSpace raw none = raw := by
  refine ⟨fun t => ?_, exists_template, fun _ => rfl⟩
  rw [substituteURLString_eq]
  exact join_findMatches isSpace substitutions t.render t.rest t.none_left t.parts 401 0 t.texts
    t.names rfl

/-- Blanks around a name make no difference. -/
example : substituteURLString (· == ' ') ['{', 'p', '}', 'x', '{', ' ', 'p', ' ', '}']
    (some fun name => if name = ['p'] then some ['g', '/'] else none) =
      ['g', '/', 'x', 'g', '/'] := by
  decide

end BulkLoader

end Resources
