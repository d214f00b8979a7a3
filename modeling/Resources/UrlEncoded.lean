import Mathlib.Data.List.Infix

/-!
# `application/x-www-form-urlencoded`

Reading a query string: cut it at the first `#`, split it at `&`, split
each piece at its first `=`, and decode names and values, that is turn
`+` into a space and percent escapes into the characters whose UTF-8
bytes they are.

Writing one without encoding anything (`join`) is undone by reading
exactly when the values are `Safe`: `parse_join_iff`. The direction that
is not obvious rests on lengths. Decoding never makes a text longer and
makes it shorter where there was an escape, so a value that was cut short
by a separator, or contained an escape, cannot be read back whole.
-/

namespace UrlEncoded

abbrev Text := List Char

/-! ## UTF-8 -/

/-- A sequence of bytes that is not complete yet: how many bytes are to
come, the bounds of the next one, and the code point so far. -/
structure Pending where
  needed : ℕ
  lower : ℕ
  upper : ℕ
  codePoint : ℕ
deriving Repr, DecidableEq

/-- The replacement character, which stands for bytes that are no character. -/
def replacement : Char := Char.ofNat 0xFFFD

/-- The first byte of a sequence: either a character of its own, or the
beginning of a longer one, whose bounds rule out overlong forms and surrogates.
-/
def startByte (b : ℕ) : Text × Option Pending :=
  if b ≤ 0x7F then ([Char.ofNat b], none)
  else if 0xC2 ≤ b ∧ b ≤ 0xDF then ([], some ⟨1, 0x80, 0xBF, b - 0xC0⟩)
  else if 0xE0 ≤ b ∧ b ≤ 0xEF then
    ([], some ⟨2, if b = 0xE0 then 0xA0 else 0x80, if b = 0xED then 0x9F else 0xBF, b - 0xE0⟩)
  else if 0xF0 ≤ b ∧ b ≤ 0xF4 then
    ([], some ⟨3, if b = 0xF0 then 0x90 else 0x80, if b = 0xF4 then 0x8F else 0xBF, b - 0xF0⟩)
  else ([replacement], none)

/-- The next byte. One that cannot continue the sequence ends it and
starts another. -/
def feed : Option Pending → ℕ → Text × Option Pending
  | none, b => startByte b
  | some p, b =>
      if p.lower ≤ b ∧ b ≤ p.upper then
        let codePoint := p.codePoint * 64 + (b - 0x80)
        if p.needed = 1 then ([Char.ofNat codePoint], none)
        else ([], some ⟨p.needed - 1, 0x80, 0xBF, codePoint⟩)
      else (replacement :: (startByte b).1, (startByte b).2)

/-- The end of the bytes. A sequence that is not complete becomes a replacement
character. -/
def flush : Option Pending → Text
  | none => []
  | some _ => [replacement]

/-! ## Names and values -/

def hexDigit? (c : Char) : Option ℕ :=
  if '0' ≤ c ∧ c ≤ '9' then some (c.toNat - '0'.toNat)
  else if 'a' ≤ c ∧ c ≤ 'f' then some (c.toNat - 'a'.toNat + 10)
  else if 'A' ≤ c ∧ c ≤ 'F' then some (c.toNat - 'A'.toNat + 10)
  else none

/-- The byte that `%` and these two characters stand for. -/
def escape? (a b : Char) : Option ℕ :=
  match hexDigit? a, hexDigit? b with
  | some m, some n => some (16 * m + n)
  | _, _ => none

/-- Decoding, after escapes that left `st` behind. A character that is not
escaped stands for a complete sequence of bytes, and so for itself. -/
def decodeFrom : Option Pending → Text → Text
  | st, [] => flush st
  | st, '%' :: a :: b :: cs =>
      match escape? a b with
      | some byte => (feed st byte).1 ++ decodeFrom (feed st byte).2 cs
      | none => flush st ++ '%' :: decodeFrom none (a :: b :: cs)
  | st, c :: cs => flush st ++ (if c = '+' then ' ' else c) :: decodeFrom none cs

/-- Decoding a name or a value: `+` is a space, and escapes are the bytes of
UTF-8. -/
def decode (cs : Text) : Text := decodeFrom none cs

/-! ## Queries -/

def cutFragment (query : Text) : Text := query.takeWhile (· ≠ '#')

/-- A piece is split at its first `=`; without one it is all name. -/
def readPiece (piece : Text) : Text × Text :=
  (decode (piece.takeWhile (· ≠ '=')), decode (piece.dropWhile (· ≠ '=')).tail)

/-- The parameters of a query, in order. Empty pieces between two `&` are none.
-/
def parse (query : Text) : List (Text × Text) :=
  ((query.splitOn '&').filter (· ≠ [])).map readPiece

/-- A query made by writing names and values as they are. -/
def join : List (Text × Text) → Text
  | [] => []
  | [p] => p.1 ++ '=' :: p.2
  | p :: q :: ps => p.1 ++ '=' :: p.2 ++ '&' :: join (q :: ps)

/-! ## Decoding and lengths -/

/-- A sequence begun counts as one character, for it yields one. -/
def weight : Option Pending → ℕ
  | none => 0
  | some _ => 1

@[simp] theorem weight_none : weight none = 0 := rfl

@[simp] theorem weight_some (p : Pending) : weight (some p) = 1 := rfl

@[simp] theorem length_flush (st : Option Pending) : (flush st).length = weight st := by
  cases st <;> rfl

theorem startByte_le (b : ℕ) : (startByte b).1.length + weight (startByte b).2 ≤ 1 := by
  unfold startByte
  repeat' split
  all_goals simp

/-- A byte adds one character at most, counting the one that is not complete
yet. -/
theorem feed_le (st : Option Pending) (b : ℕ) :
    (feed st b).1.length + weight (feed st b).2 ≤ weight st + 1 := by
  have hstart := startByte_le b
  cases st with
  | none => exact hstart
  | some p =>
      by_cases hb : p.lower ≤ b ∧ b ≤ p.upper
      · rw [feed, if_pos hb]
        by_cases hlast : p.needed = 1
        · simp [hlast]
        · simp [hlast]
      · rw [feed, if_neg hb]
        simp only [List.length_cons, weight_some]
        omega

/-- Decoding yields no more characters than there were, counting the one that
was begun. -/
theorem decodeFrom_le (st : Option Pending) (cs : Text) :
    (decodeFrom st cs).length ≤ weight st + cs.length := by
  induction st, cs using decodeFrom.induct with
  | case1 st => simp [decodeFrom]
  | case2 st a b cs byte hbyte ih =>
      have hfeed := feed_le st byte
      rw [decodeFrom, hbyte]
      simp only [List.length_append, List.length_cons]
      omega
  | case3 st a b cs hnone ih =>
      rw [decodeFrom, hnone]
      simp only [List.length_append, List.length_cons, length_flush, weight_none] at ih ⊢
      omega
  | case4 st c cs hcs ih =>
      rw [decodeFrom]
      · simp only [List.length_append, List.length_cons, length_flush, weight_none] at ih ⊢
        omega
      · exact hcs

/-! ## What decodes to itself -/

/-- The text begins with a `%` and two hexadecimal digits. -/
def StartsEscape (cs : Text) : Prop :=
  ∃ a b post, cs = '%' :: a :: b :: post ∧ (escape? a b).isSome

/-- There is an escape somewhere in the text. A `%` alone is none, and stands
for itself. -/
def HasEscape (cs : Text) : Prop := ∃ t, t <:+ cs ∧ StartsEscape t

/-- Nothing in the text means anything else to the decoder: it has no `+` and
no escape. -/
structure Plain (cs : Text) : Prop where
  plus : '+' ∉ cs
  escape : ¬HasEscape cs

theorem hasEscape_cons {c : Char} {cs : Text} :
    HasEscape (c :: cs) ↔ StartsEscape (c :: cs) ∨ HasEscape cs := by
  constructor
  · rintro ⟨t, ht, hstart⟩
    rcases List.suffix_cons_iff.mp ht with rfl | ht
    · exact Or.inl hstart
    · exact Or.inr ⟨t, ht, hstart⟩
  · rintro (hstart | ⟨t, ht, hstart⟩)
    · exact ⟨_, List.suffix_rfl, hstart⟩
    · exact ⟨t, List.suffix_cons_iff.mpr (Or.inr ht), hstart⟩

theorem plain_nil : Plain [] := by
  refine ⟨List.not_mem_nil, ?_⟩
  rintro ⟨t, ht, a, b, post, rfl, -⟩
  cases List.suffix_nil.mp ht

theorem plain_cons {c : Char} {cs : Text} :
    Plain (c :: cs) ↔ c ≠ '+' ∧ ¬StartsEscape (c :: cs) ∧ Plain cs := by
  constructor
  · rintro ⟨hplus, hesc⟩
    rw [hasEscape_cons, not_or] at hesc
    rw [List.mem_cons, not_or] at hplus
    exact ⟨hplus.1 ∘ Eq.symm, hesc.1, hplus.2, hesc.2⟩
  · rintro ⟨hc, hstart, hplus, hesc⟩
    refine ⟨?_, ?_⟩
    · rw [List.mem_cons, not_or]
      exact ⟨hc ∘ Eq.symm, hplus⟩
    · rw [hasEscape_cons, not_or]
      exact ⟨hstart, hesc⟩

theorem decode_cons {c : Char} {cs : Text} (h : ¬StartsEscape (c :: cs)) :
    decode (c :: cs) = (if c = '+' then ' ' else c) :: decode cs := by
  unfold decode
  by_cases hpercent : ∃ a b post, c :: cs = '%' :: a :: b :: post
  · obtain ⟨a, b, post, heq⟩ := hpercent
    obtain ⟨rfl, rfl⟩ := List.cons.inj heq
    have hnone : escape? a b = none := by
      rw [← Option.not_isSome_iff_eq_none]
      exact fun hsome => h ⟨a, b, post, rfl, hsome⟩
    rw [decodeFrom, hnone]
    rfl
  · rw [decodeFrom]
    · rfl
    · rintro a b post rfl rfl
      exact hpercent ⟨a, b, post, rfl⟩

/-- An escape makes the text shorter, since it has three characters and yields
one at most. -/
theorem decode_escape {cs : Text} (h : StartsEscape cs) : decode cs ≠ cs := by
  obtain ⟨a, b, post, rfl, hsome⟩ := h
  obtain ⟨byte, hbyte⟩ := Option.isSome_iff_exists.mp hsome
  intro heq
  have hlen := congrArg List.length heq
  rw [decode, decodeFrom, hbyte] at hlen
  have hfeed := feed_le none byte
  have hrest := decodeFrom_le (feed none byte).2 post
  simp only [List.length_append, List.length_cons, weight_none] at hlen hfeed
  omega

/-- A text decodes to itself exactly when it is plain. -/
theorem decode_eq_self : ∀ {cs : Text}, decode cs = cs ↔ Plain cs
  | [] => iff_of_true rfl plain_nil
  | c :: cs => by
      rw [plain_cons]
      by_cases hstart : StartsEscape (c :: cs)
      · exact iff_of_false (decode_escape hstart) fun h => h.2.1 hstart
      · rw [decode_cons hstart, List.cons_eq_cons, decode_eq_self]
        by_cases hc : c = '+'
        · subst hc
          exact iff_of_false (fun h => absurd h.1 (by decide)) fun h => h.1 rfl
        · rw [if_neg hc]
          simp only [hc, hstart, ne_eq, not_false_eq_true, true_and]

theorem length_decode_le (cs : Text) : (decode cs).length ≤ cs.length := by
  have hle := decodeFrom_le none cs
  rwa [weight_none, Nat.zero_add] at hle

/-! ## Reading back what `join` wrote -/

/-- The value is plain, and neither an `&` nor a `#` cuts it short. -/
structure Safe (cs : Text) : Prop extends Plain cs where
  ampersand : '&' ∉ cs
  fragment : '#' ∉ cs

/-- A name that is safe, and ends before the first `=`. -/
structure SafeName (cs : Text) : Prop extends Safe cs where
  equals : '=' ∉ cs

theorem HasEscape.percent {cs : Text} (h : HasEscape cs) : '%' ∈ cs := by
  obtain ⟨t, ht, a, b, post, rfl, -⟩ := h
  exact ht.subset List.mem_cons_self

/-- A text without reserved characters. -/
theorem safeName_of_unreserved {cs : Text}
    (h : (cs.all fun c => c ∉ ['+', '%', '&', '#', '=']) = true) : SafeName cs := by
  have hcs : ∀ c ∈ ['+', '%', '&', '#', '='], c ∉ cs := by
    intro c hc hmem
    exact of_decide_eq_true (List.all_eq_true.mp h c hmem) hc
  simp only [List.forall_mem_cons] at hcs
  obtain ⟨hplus, hpercent, hampersand, hfragment, hequals, -⟩ := hcs
  exact ⟨⟨⟨hplus, fun hesc => hpercent hesc.percent⟩, hampersand, hfragment⟩, hequals⟩

/-- A value is safe from separators, or it can be cut at its first one. -/
theorem cut_value (cs : Text) :
    ('&' ∉ cs ∧ '#' ∉ cs) ∨
      ∃ u c w, cs = u ++ c :: w ∧ (c = '&' ∨ c = '#') ∧ '&' ∉ u ∧ '#' ∉ u := by
  induction cs with
  | nil => exact Or.inl ⟨List.not_mem_nil, List.not_mem_nil⟩
  | cons c cs ih =>
      by_cases hc : c = '&' ∨ c = '#'
      · exact Or.inr ⟨[], c, cs, rfl, hc, List.not_mem_nil, List.not_mem_nil⟩
      · rw [not_or] at hc
        rcases ih with ⟨hamp, hhash⟩ | ⟨u, d, w, rfl, hd, hamp, hhash⟩
        · refine Or.inl ⟨?_, ?_⟩
          · rw [List.mem_cons, not_or]
            exact ⟨hc.1 ∘ Eq.symm, hamp⟩
          · rw [List.mem_cons, not_or]
            exact ⟨hc.2 ∘ Eq.symm, hhash⟩
        · refine Or.inr ⟨c :: u, d, w, rfl, hd, ?_, ?_⟩
          · rw [List.mem_cons, not_or]
            exact ⟨hc.1 ∘ Eq.symm, hamp⟩
          · rw [List.mem_cons, not_or]
            exact ⟨hc.2 ∘ Eq.symm, hhash⟩

theorem cutFragment_append {u : Text} (hu : '#' ∉ u) (w : Text) :
    cutFragment (u ++ w) = u ++ cutFragment w := by
  unfold cutFragment
  rw [List.takeWhile_append_of_pos]
  intro c hc
  rw [decide_eq_true_eq]
  rintro rfl
  exact hu hc

theorem parse_piece {u : Text} (hu : '&' ∉ u) (hne : u ≠ []) (w : Text) :
    parse (u ++ '&' :: w) = readPiece u :: parse w := by
  unfold parse
  rw [List.splitOn_eq_splitOnP, List.splitOnP_append_cons_of_forall_mem, List.filter_cons_of_pos,
    List.map_cons, List.splitOn_eq_splitOnP]
  · simpa using hne
  · intro c hc
    rw [beq_eq_false_iff_ne]
    rintro rfl
    exact hu hc
  · rfl

theorem parse_last {u : Text} (hu : '&' ∉ u) (hne : u ≠ []) : parse u = [readPiece u] := by
  unfold parse
  rw [List.splitOn_eq_splitOnP, List.splitOnP_eq_singleton, List.filter_cons_of_pos]
  · rfl
  · simpa using hne
  · intro c hc
    rw [beq_eq_false_iff_ne]
    rintro rfl
    exact hu hc

theorem readPiece_name {k : Text} (hk : SafeName k) (v : Text) :
    readPiece (k ++ '=' :: v) = (k, decode v) := by
  have hname : ∀ c ∈ k, decide (c ≠ '=') = true := by
    intro c hc
    rw [decide_eq_true_eq]
    rintro rfl
    exact hk.equals hc
  rw [readPiece, List.takeWhile_append_of_pos hname, List.dropWhile_append_of_pos hname]
  simp [decode_eq_self.mpr hk.toPlain]

theorem not_mem_parameter {k u : Text} {c : Char} (hc : c ∉ k) (heq : c ≠ '=') (hu : c ∉ u) :
    c ∉ k ++ '=' :: u := by
  simp [hc, heq, hu]

section parameter
variable {k : Text} (hk : SafeName k)
include hk

/-- A parameter whose value goes on up to a separator `c`: it is read as if it
ended there. -/
theorem parse_cut {u : Text} (hamp : '&' ∉ u) (hhash : '#' ∉ u) {c : Char}
    (hc : c = '&' ∨ c = '#') (w : Text) :
    parse (cutFragment ((k ++ '=' :: u) ++ c :: w)) =
      (k, decode u) :: (if c = '&' then parse (cutFragment w) else []) := by
  have hamp' := not_mem_parameter hk.ampersand (by decide) hamp
  have hhash' := not_mem_parameter hk.fragment (by decide) hhash
  rw [cutFragment_append hhash']
  rcases hc with rfl | rfl
  · rw [show cutFragment ('&' :: w) = '&' :: cutFragment w from rfl,
      parse_piece hamp' (by simp), readPiece_name hk]
    rfl
  · rw [show cutFragment ('#' :: w) = [] from rfl, List.append_nil,
      parse_last hamp' (by simp), readPiece_name hk]
    rfl

/-- A value that a separator cuts short is not read back, since what is read of
it is too short. -/
theorem parse_cut_ne {u : Text} (hamp : '&' ∉ u) (hhash : '#' ∉ u) {c : Char}
    (hc : c = '&' ∨ c = '#') (w rest : Text) (ps : List (Text × Text)) :
    parse (cutFragment ((k ++ '=' :: (u ++ c :: w)) ++ rest)) ≠ (k, u ++ c :: w) :: ps := by
  intro heq
  rw [List.append_assoc, List.cons_append, List.append_assoc, List.cons_append,
    ← List.cons_append, ← List.append_assoc, parse_cut hk hamp hhash hc] at heq
  have hval : decode u = u ++ c :: w := congrArg Prod.snd (List.cons.inj heq).1
  have hlen := length_decode_le u
  rw [hval, List.length_append, List.length_cons] at hlen
  omega

/-- The first of several parameters is read back exactly if its value is safe
and the others are read back. -/
theorem parse_cons_iff (v rest : Text) (ps : List (Text × Text)) :
    parse (cutFragment ((k ++ '=' :: v) ++ '&' :: rest)) = (k, v) :: ps ↔
      Safe v ∧ parse (cutFragment rest) = ps := by
  rcases cut_value v with ⟨hamp, hhash⟩ | ⟨u, c, w, rfl, hc, hamp, hhash⟩
  · rw [parse_cut hk hamp hhash (Or.inl rfl), if_pos rfl, List.cons_eq_cons, Prod.mk.injEq]
    refine and_congr_left fun _ => ?_
    rw [decode_eq_self]
    exact ⟨fun h => ⟨h.2, hamp, hhash⟩, fun h => ⟨rfl, h.toPlain⟩⟩
  · refine iff_of_false (parse_cut_ne hk hamp hhash hc _ _ _) ?_
    rintro ⟨hsafe, -⟩
    rcases hc with rfl | rfl
    · exact hsafe.ampersand (by simp)
    · exact hsafe.fragment (by simp)

/-- The last parameter is read back exactly if its value is safe. -/
theorem parse_single_iff (v : Text) :
    parse (cutFragment (k ++ '=' :: v)) = [(k, v)] ↔ Safe v := by
  rcases cut_value v with ⟨hamp, hhash⟩ | ⟨u, c, w, rfl, hc, hamp, hhash⟩
  · have hamp' := not_mem_parameter hk.ampersand (by decide) hamp
    have hhash' := not_mem_parameter hk.fragment (by decide) hhash
    have hcut := cutFragment_append hhash' []
    rw [List.append_nil] at hcut
    rw [hcut, show cutFragment [] = [] from rfl, List.append_nil, parse_last hamp' (by simp),
      readPiece_name hk, List.cons_eq_cons, Prod.mk.injEq, decode_eq_self]
    exact ⟨fun h => ⟨h.1.2, hamp, hhash⟩, fun h => ⟨⟨rfl, h.toPlain⟩, rfl⟩⟩
  · have hne := parse_cut_ne hk hamp hhash hc w [] []
    rw [List.append_nil] at hne
    refine iff_of_false hne ?_
    intro hsafe
    rcases hc with rfl | rfl
    · exact hsafe.ampersand (by simp)
    · exact hsafe.fragment (by simp)

end parameter

/-- **Reading undoes writing** exactly when all values are safe, for parameters
whose names are. -/
theorem parse_join_iff : ∀ (ps : List (Text × Text)), (∀ p ∈ ps, SafeName p.1) →
    (parse (cutFragment (join ps)) = ps ↔ ∀ p ∈ ps, Safe p.2)
  | [], _ => by simp [join, cutFragment, parse]
  | [p], hnames => by
      rw [join, List.forall_mem_singleton]
      exact parse_single_iff (hnames p List.mem_cons_self) p.2
  | p :: q :: ps, hnames => by
      rw [List.forall_mem_cons] at hnames ⊢
      rw [join, parse_cons_iff hnames.1, parse_join_iff (q :: ps) hnames.2]

end UrlEncoded
