import VisitGraph.Proofs.Text.Content
import VisitGraph.Proofs.Text.Hexadecimal

/-! # Spellings of hexadecimal numbers

The spellings are given by a grammar that builds a numeral digit by digit from the left. Reading a
text from the left finds the sign and the base mark first, so it is shown that neither can be taken
for a digit. -/

namespace VisitGraph.Text.Hexadecimal

/-- The character stands for the digit: a decimal digit of some script, or one of the first six
letters of the basic alphabet in either case. -/
inductive IsDigit (c : Char) : ℕ → Prop where
  | decimal {first d} (hfirst : first ∈ decimalZeros) (hd : d < 10) (hc : c.toNat = first + d) :
      IsDigit c d
  | lower (h : 'a' ≤ c ∧ c ≤ 'f') : IsDigit c (c.toNat - 'a'.toNat + 10)
  | upper (h : 'A' ≤ c ∧ c ≤ 'F') : IsDigit c (c.toNat - 'A'.toNat + 10)

/-- At least one digit, the most significant first, with at most one underscore between two. -/
inductive Numeral : List Char → ℕ → Prop where
  | digit {c d} (hc : IsDigit c d) : Numeral [c] d
  | next {text n c d} (h : Numeral text n) (hc : IsDigit c d) : Numeral (text ++ [c]) (16 * n + d)
  | gap {text n c d} (h : Numeral text n) (hc : IsDigit c d) :
      Numeral (text ++ ['_', c]) (16 * n + d)

/-- What may stand before the digits: nothing, or a zero and an `x`, with or without an underscore
after them. -/
inductive IsMark (zero : Char → Prop) : List Char → Prop where
  | none : IsMark zero []
  | tight {z x} (hz : zero z) (hx : x = 'x' ∨ x = 'X') : IsMark zero [z, x]
  | gap {z x} (hz : zero z) (hx : x = 'x' ∨ x = 'X') : IsMark zero [z, x, '_']

/-- A spelling of the number, with or without a sign, whose base mark begins with one of the
zeros. -/
inductive Spells (zero : Char → Prop) : List Char → Int → Prop where
  | bare {mark digits n} (hmark : IsMark zero mark) (hdigits : Numeral digits n) :
      Spells zero (mark ++ digits) n
  | plus {mark digits n} (hmark : IsMark zero mark) (hdigits : Numeral digits n) :
      Spells zero ('+' :: (mark ++ digits)) n
  | minus {mark digits n} (hmark : IsMark zero mark) (hdigits : Numeral digits n) :
      Spells zero ('-' :: (mark ++ digits)) (-n)

/-- The zero of some script. -/
def IsZero (c : Char) : Prop :=
  c.toNat ∈ decimalZeros

/-! ## Digits -/

/-- The digits of a script are apart from those of any other. -/
theorem add_ten_le_of_mem_decimalZeros {first other : ℕ} (h : first ∈ decimalZeros)
    (h' : other ∈ decimalZeros) (hlt : first < other) : first + 10 ≤ other := by
  have hall : ∀ z ∈ decimalZeros, ∀ z' ∈ decimalZeros, z < z' → z + 10 ≤ z' := by decide +kernel
  exact hall first h other h' hlt

theorem decimalDigit?_eq_some_iff {c : Char} {d : ℕ} :
    decimalDigit? c = some d ↔ ∃ first ∈ decimalZeros, d < 10 ∧ c.toNat = first + d := by
  rw [decimalDigit?, Option.map_eq_some_iff]
  constructor
  · rintro ⟨first, hfind, rfl⟩
    have hrange := List.find?_some hfind
    simp only [Bool.and_eq_true, decide_eq_true_eq] at hrange
    exact ⟨first, List.mem_of_find?_eq_some hfind, by omega, by omega⟩
  · rintro ⟨first, hfirst, hd, hc⟩
    cases hfind : decimalZeros.find? fun first => first ≤ c.toNat && c.toNat < first + 10 with
    | none =>
        have hnone := List.find?_eq_none.mp hfind first hfirst
        simp only [Bool.and_eq_true, decide_eq_true_eq] at hnone
        omega
    | some other =>
        have hother := List.mem_of_find?_eq_some hfind
        have hrange := List.find?_some hfind
        simp only [Bool.and_eq_true, decide_eq_true_eq] at hrange
        refine ⟨other, rfl, ?_⟩
        rcases Nat.lt_trichotomy first other with hlt | rfl | hlt
        · have hapart := add_ten_le_of_mem_decimalZeros hfirst hother hlt
          omega
        · omega
        · have hapart := add_ten_le_of_mem_decimalZeros hother hfirst hlt
          omega

theorem decimalDigit?_eq_zero_iff {c : Char} : decimalDigit? c = some 0 ↔ IsZero c := by
  rw [decimalDigit?_eq_some_iff]
  constructor
  · rintro ⟨first, hfirst, -, hc⟩
    rwa [IsZero, hc]
  · intro h
    exact ⟨c.toNat, h, by decide, rfl⟩

theorem toNat_of_lower {c : Char} (h : 'a' ≤ c ∧ c ≤ 'f') : 97 ≤ c.toNat ∧ c.toNat ≤ 102 := h

theorem toNat_of_upper {c : Char} (h : 'A' ≤ c ∧ c ≤ 'F') : 65 ≤ c.toNat ∧ c.toNat ≤ 70 := h

/-- The digits of the first script come before the letters, those of the others behind. -/
theorem not_letter_of_decimal {c : Char} {first d : ℕ} (hfirst : first ∈ decimalZeros)
    (hd : d < 10) (hc : c.toNat = first + d) :
    ¬ ('a' ≤ c ∧ c ≤ 'f') ∧ ¬ ('A' ≤ c ∧ c ≤ 'F') := by
  have hall : ∀ z ∈ decimalZeros, z = 48 ∨ 1632 ≤ z := by decide
  have hscript := hall first hfirst
  constructor
  · intro h
    have hrange := toNat_of_lower h
    omega
  · intro h
    have hrange := toNat_of_upper h
    omega

theorem hexDigit?_eq_some_iff {c : Char} {d : ℕ} : hexDigit? c = some d ↔ IsDigit c d := by
  rw [hexDigit?]
  constructor
  · intro h
    split at h
    · rename_i hlower
      cases h
      exact .lower hlower
    · split at h
      · rename_i hupper
        cases h
        exact .upper hupper
      · obtain ⟨first, hfirst, hd, hc⟩ := decimalDigit?_eq_some_iff.mp h
        exact .decimal hfirst hd hc
  · intro h
    cases h with
    | decimal hfirst hd hc =>
        obtain ⟨hlower, hupper⟩ := not_letter_of_decimal hfirst hd hc
        rw [if_neg hlower, if_neg hupper]
        exact decimalDigit?_eq_some_iff.mpr ⟨_, hfirst, hd, hc⟩
    | lower hlower => rw [if_pos hlower]
    | upper hupper =>
        have hnot : ¬ ('a' ≤ c ∧ c ≤ 'f') := by
          intro hlower
          have hrange := toNat_of_lower hlower
          have hrange' := toNat_of_upper hupper
          omega
        rw [if_neg hnot, if_pos hupper]

theorem not_isDigit {c : Char} (h : hexDigit? c = none) (d : ℕ) : ¬ IsDigit c d := by
  intro hd
  rw [hexDigit?_eq_some_iff.mpr hd] at h
  cases h

theorem IsZero.isDigit {c : Char} (h : IsZero c) : IsDigit c 0 :=
  .decimal h (by decide) rfl

theorem IsDigit.isBlank_eq {c : Char} {d : ℕ} (h : IsDigit c d) : isBlank c = false := by
  cases h with
  | decimal hfirst hd hc =>
      have hall : ∀ first ∈ decimalZeros, ∀ d < 10, isBlank (Char.ofNat (first + d)) = false := by
        decide +kernel
      have hblank := hall _ hfirst d hd
      rwa [← hc, Char.ofNat_toNat] at hblank
  | lower h =>
      have hrange := toNat_of_lower h
      exact isBlank_of_range (by omega) (by omega)
  | upper h =>
      have hrange := toNat_of_upper h
      exact isBlank_of_range (by omega) (by omega)

/-! ## Numerals -/

theorem IsDigit.ne_underscore {c : Char} {d : ℕ} (h : IsDigit c d) : c ≠ '_' := by
  rintro rfl
  exact not_isDigit (by decide) d h

/-- After a numeral, reading goes on from its number. -/
theorem Numeral.natural?_append {text : List Char} {n : ℕ} (h : Numeral text n)
    (rest : List Char) : natural? (text ++ rest) = digits? n rest := by
  induction h generalizing rest with
  | digit hc =>
      change (hexDigit? _).bind (digits? · rest) = _
      rw [hexDigit?_eq_some_iff.mpr hc, Option.bind_some]
  | next _ hc ih =>
      rw [List.append_assoc, ih, List.singleton_append, digits?_cons hc.ne_underscore,
        hexDigit?_eq_some_iff.mpr hc, Option.bind_some]
  | gap _ hc ih =>
      rw [List.append_assoc, ih]
      change (hexDigit? _).bind (fun d => digits? _ rest) = _
      rw [hexDigit?_eq_some_iff.mpr hc, Option.bind_some]

theorem Numeral.of_digits? {front rest : List Char} {value n : ℕ} (hfront : Numeral front value)
    (h : digits? value rest = some n) : Numeral (front ++ rest) n := by
  -- the front is what was read so far: it takes in each digit, with the underscore before it
  fun_induction digits? value rest generalizing front with
  | case1 value =>
      cases h
      rwa [List.append_nil]
  | case2 value c rest ih =>
      obtain ⟨d, hd, h⟩ := Option.bind_eq_some_iff.mp h
      have hrest := ih d (hfront.gap (hexDigit?_eq_some_iff.mp hd)) h
      rwa [List.append_assoc] at hrest
  | case3 value c rest _ ih =>
      obtain ⟨d, hd, h⟩ := Option.bind_eq_some_iff.mp h
      have hrest := ih d (hfront.next (hexDigit?_eq_some_iff.mp hd)) h
      rwa [List.append_assoc] at hrest

theorem natural?_eq_some_iff {text : List Char} {n : ℕ} :
    natural? text = some n ↔ Numeral text n := by
  constructor
  · intro h
    cases text with
    | nil => cases h
    | cons c rest =>
        obtain ⟨d, hd, h⟩ := Option.bind_eq_some_iff.mp h
        exact (Numeral.digit (hexDigit?_eq_some_iff.mp hd)).of_digits? h
  · intro h
    have hread := h.natural?_append []
    rwa [List.append_nil, digits?] at hread

/-! ## Marks and signs -/

/-- The characters of a spelling behind its sign. -/
inductive IsBodyChar : Char → Prop where
  | digit {c d} (h : IsDigit c d) : IsBodyChar c
  | underscore : IsBodyChar '_'
  | mark {c} (h : c = 'x' ∨ c = 'X') : IsBodyChar c

theorem Numeral.digit_or_underscore {text : List Char} {n : ℕ} (h : Numeral text n) {c : Char}
    (hc : c ∈ text) : (∃ d, IsDigit c d) ∨ c = '_' := by
  induction h with
  | digit hd =>
      rw [List.mem_singleton.mp hc]
      exact .inl ⟨_, hd⟩
  | next _ hd ih =>
      rcases List.mem_append.mp hc with hc | hc
      · exact ih hc
      · rw [List.mem_singleton.mp hc]
        exact .inl ⟨_, hd⟩
  | gap _ hd ih =>
      rcases List.mem_append.mp hc with hc | hc
      · exact ih hc
      · rcases List.mem_cons.mp hc with rfl | hc
        · exact .inr rfl
        · rw [List.mem_singleton.mp hc]
          exact .inl ⟨_, hd⟩

theorem Numeral.exists_cons {text : List Char} {n : ℕ} (h : Numeral text n) :
    ∃ c rest d, text = c :: rest ∧ IsDigit c d := by
  induction h with
  | digit hc => exact ⟨_, [], _, rfl, hc⟩
  | next _ _ ih =>
      obtain ⟨c, rest, d, rfl, hc⟩ := ih
      exact ⟨c, _, d, rfl, hc⟩
  | gap _ _ ih =>
      obtain ⟨c, rest, d, rfl, hc⟩ := ih
      exact ⟨c, _, d, rfl, hc⟩

theorem Numeral.notMem {text : List Char} {n : ℕ} (h : Numeral text n) {c : Char}
    (hc : hexDigit? c = none) (hne : c ≠ '_') : c ∉ text := by
  intro hmem
  rcases h.digit_or_underscore hmem with ⟨d, hd⟩ | rfl
  · exact not_isDigit hc d hd
  · exact hne rfl

theorem dropBaseMark_append {mark digits : List Char} {n : ℕ} (hmark : IsMark IsZero mark)
    (hdigits : Numeral digits n) : dropBaseMark (mark ++ digits) = digits := by
  cases hmark with
  | none =>
      -- no digit is an x, so nothing in the numeral looks like a mark
      exact dropBaseMark_eq_self (hdigits.notMem (by decide) (by decide))
        (hdigits.notMem (by decide) (by decide))
  | tight hz hx =>
      obtain ⟨c, rest, d, rfl, hc⟩ := hdigits.exists_cons
      have hgap : (c :: rest).head? ≠ some '_' := fun h => hc.ne_underscore (Option.some.inj h)
      exact (if_pos ⟨decimalDigit?_eq_zero_iff.mpr hz, hx⟩).trans (if_neg hgap)
  | gap hz hx => exact (if_pos ⟨decimalDigit?_eq_zero_iff.mpr hz, hx⟩).trans (if_pos rfl)

theorem exists_mark (text : List Char) :
    ∃ mark, IsMark IsZero mark ∧ text = mark ++ dropBaseMark text := by
  match text with
  | [] => exact ⟨[], .none, rfl⟩
  | [_] => exact ⟨[], .none, rfl⟩
  | z :: x :: rest =>
      rw [dropBaseMark]
      split
      · rename_i hmark
        obtain ⟨hz, hx⟩ := hmark
        have hz := decimalDigit?_eq_zero_iff.mp hz
        split
        · rename_i hgap
          obtain ⟨rest, rfl⟩ := List.head?_eq_some_iff.mp hgap
          exact ⟨[z, x, '_'], .gap hz hx, rfl⟩
        · exact ⟨[z, x], .tight hz hx, rfl⟩
      · exact ⟨[], .none, rfl⟩

theorem natural?_dropBaseMark_append {mark digits : List Char} {n : ℕ}
    (hmark : IsMark IsZero mark) (hdigits : Numeral digits n) :
    natural? (dropBaseMark (mark ++ digits)) = some n := by
  rw [dropBaseMark_append hmark hdigits]
  exact natural?_eq_some_iff.mpr hdigits

/-- What stands behind a sign, or without one. -/
theorem exists_mark_of_natural? {text : List Char} {n : ℕ}
    (h : natural? (dropBaseMark text) = some n) :
    ∃ mark digits, IsMark IsZero mark ∧ Numeral digits n ∧ text = mark ++ digits := by
  obtain ⟨mark, hmark, htext⟩ := exists_mark text
  exact ⟨mark, dropBaseMark text, hmark, natural?_eq_some_iff.mp h, htext⟩

theorem IsMark.isBodyChar {mark : List Char} (h : IsMark IsZero mark) {c : Char}
    (hc : c ∈ mark) : IsBodyChar c := by
  cases h with
  | none => cases hc
  | tight hz hx =>
      simp only [List.mem_cons, List.not_mem_nil, or_false] at hc
      rcases hc with rfl | rfl
      · exact .digit hz.isDigit
      · exact .mark hx
  | gap hz hx =>
      simp only [List.mem_cons, List.not_mem_nil, or_false] at hc
      rcases hc with rfl | rfl | rfl
      · exact .digit hz.isDigit
      · exact .mark hx
      · exact .underscore

theorem isBodyChar_of_mem_append {mark digits : List Char} {n : ℕ} (hmark : IsMark IsZero mark)
    (hdigits : Numeral digits n) {c : Char} (hc : c ∈ mark ++ digits) : IsBodyChar c := by
  rcases List.mem_append.mp hc with hc | hc
  · exact hmark.isBodyChar hc
  · rcases hdigits.digit_or_underscore hc with ⟨d, hd⟩ | rfl
    · exact .digit hd
    · exact .underscore

theorem not_isBodyChar_minus : ¬ IsBodyChar '-' := by
  intro h
  cases h with
  | digit h => exact not_isDigit (by decide) _ h
  | mark h => exact absurd h (by decide)

theorem not_isBodyChar_plus : ¬ IsBodyChar '+' := by
  intro h
  cases h with
  | digit h => exact not_isDigit (by decide) _ h
  | mark h => exact absurd h (by decide)

theorem IsBodyChar.isBlank_eq {c : Char} (h : IsBodyChar c) : isBlank c = false := by
  cases h with
  | digit h => exact h.isBlank_eq
  | underscore => decide
  | mark h => rcases h with rfl | rfl <;> decide

/-! ## Spellings -/

theorem read?_eq_some_of_takeSign {text rest : List Char} {negative : Bool}
    (h : takeSign text = (negative, rest)) {n : Int} :
    read? text = some n ↔
      ∃ m : ℕ, natural? (dropBaseMark rest) = some m ∧
        (if negative then -(m : Int) else m) = n := by
  rw [read?, h]
  simp only [Option.bind_eq_bind, Option.bind_eq_some_iff, Option.pure_def, Option.some.injEq]

/-- Exactly the spellings are read, and as the numbers they stand for. -/
theorem read?_eq_some_iff {text : List Char} {n : Int} :
    read? text = some n ↔ Spells IsZero text n := by
  constructor
  · intro h
    cases hsign : takeSign text with
    | mk negative rest =>
        rw [read?_eq_some_of_takeSign hsign] at h
        obtain ⟨m, hm, rfl⟩ := h
        obtain ⟨mark, digits, hmark, hdigits, rfl⟩ := exists_mark_of_natural? hm
        unfold takeSign at hsign
        split at hsign
        · cases hsign
          exact .minus hmark hdigits
        · cases hsign
          exact .plus hmark hdigits
        · cases hsign
          exact .bare hmark hdigits
  · intro h
    cases h with
    | bare hmark hdigits =>
        have hminus := mt (isBodyChar_of_mem_append hmark hdigits) not_isBodyChar_minus
        have hplus := mt (isBodyChar_of_mem_append hmark hdigits) not_isBodyChar_plus
        rw [read?_eq_some_of_takeSign (takeSign_eq_self hminus hplus)]
        exact ⟨_, natural?_dropBaseMark_append hmark hdigits, rfl⟩
    | plus hmark hdigits =>
        rw [read?_eq_some_of_takeSign rfl]
        exact ⟨_, natural?_dropBaseMark_append hmark hdigits, rfl⟩
    | minus hmark hdigits =>
        rw [read?_eq_some_of_takeSign rfl]
        exact ⟨_, natural?_dropBaseMark_append hmark hdigits, rfl⟩

theorem Spells.isBlank_eq {line : List Char} {n : Int} (h : Spells IsZero line n) {c : Char}
    (hc : c ∈ line) : isBlank c = false := by
  cases h with
  | bare hmark hdigits => exact (isBodyChar_of_mem_append hmark hdigits hc).isBlank_eq
  | plus hmark hdigits =>
      rcases List.mem_cons.mp hc with rfl | hc
      · decide
      · exact (isBodyChar_of_mem_append hmark hdigits hc).isBlank_eq
  | minus hmark hdigits =>
      rcases List.mem_cons.mp hc with rfl | hc
      · decide
      · exact (isBodyChar_of_mem_append hmark hdigits hc).isBlank_eq

theorem Spells.ne_nil {line : List Char} {n : Int} (h : Spells IsZero line n) : line ≠ [] := by
  rintro rfl
  cases read?_eq_some_iff.mpr h

/-- No spelling has blanks around it, so it is what is left of a line when that is trimmed. -/
theorem Spells.isContent {line : List Char} {n : Int} (h : Spells IsZero line n) :
    IsContent line where
  ne_nil := h.ne_nil
  noBreak _ hc := isBreak_eq_false_of_isBlank (h.isBlank_eq hc)
  head _ hc := h.isBlank_eq (List.mem_of_mem_head? hc)
  last _ hc := h.isBlank_eq (List.mem_of_getLast? hc)

/-! ## Written numbers -/

/-- Digits with single underscores put between some of them. -/
inductive Spaced : List Char → List Char → Prop where
  | one {c} : Spaced [c] [c]
  | next {digits text c} (h : Spaced digits text) : Spaced (digits ++ [c]) (text ++ [c])
  | gap {digits text c} (h : Spaced digits text) : Spaced (digits ++ [c]) (text ++ ['_', c])

/-- The line shows the number: a base mark or none, zeros or none, and the digits that the number
is written with, each in either case. Underscores may be put between. -/
def Renders (n : ℕ) (line : List Char) : Prop :=
  ∃ mark leading digits text, IsMark (· = '0') mark ∧ Spaced digits text ∧
    digits.map Char.toLower = List.replicate leading '0' ++ Nat.toDigits 16 n ∧
      line = mark ++ text

theorem isZero_zero : IsZero '0' := by
  rw [IsZero]
  decide

theorem IsMark.mono {zero zero' : Char → Prop} (h : ∀ c, zero c → zero' c) {mark : List Char}
    (hmark : IsMark zero mark) : IsMark zero' mark := by
  cases hmark with
  | none => exact .none
  | tight hz hx => exact .tight (h _ hz) hx
  | gap hz hx => exact .gap (h _ hz) hx

theorem hexDigit?_toLower {c : Char} (h : c.toLower ∈ lowerDigits) :
    hexDigit? c.toLower = hexDigit? c := by
  by_cases hsmall : c.toNat < 128
  · have hall : ∀ n ∈ List.range 128, (Char.ofNat n).toLower ∈ lowerDigits →
        hexDigit? (Char.ofNat n).toLower = hexDigit? (Char.ofNat n) := by decide +kernel
    have hc := hall c.toNat (List.mem_range.mpr hsmall)
    rw [Char.ofNat_toNat] at hc
    exact hc h
  · -- beyond the basic alphabet nothing is put into lower case
    have hself : c.toLower = c := by
      apply dif_neg
      rintro ⟨-, hle⟩
      have hle : c.toNat ≤ 90 := hle
      omega
    rw [hself]

theorem exists_isDigit_of_toLower {c : Char} (h : c.toLower ∈ lowerDigits) :
    ∃ d, IsDigit c d ∧ IsDigit c.toLower d := by
  have hall : lowerDigits.all fun c => (hexDigit? c).isSome := by decide
  obtain ⟨d, hd⟩ := Option.isSome_iff_exists.mp (List.all_eq_true.mp hall _ h)
  refine ⟨d, hexDigit?_eq_some_iff.mp ?_, hexDigit?_eq_some_iff.mp hd⟩
  rwa [← hexDigit?_toLower h]

theorem Spaced.exists_numeral {digits text : List Char} (h : Spaced digits text)
    (hdigits : ∀ c ∈ digits, c.toLower ∈ lowerDigits) :
    ∃ n, Numeral text n ∧ Numeral (digits.map Char.toLower) n := by
  induction h with
  | one =>
      obtain ⟨d, hc, hlower⟩ := exists_isDigit_of_toLower (hdigits _ List.mem_cons_self)
      exact ⟨d, .digit hc, .digit hlower⟩
  | next _ ih =>
      obtain ⟨hfront, hlast⟩ := List.forall_mem_append.mp hdigits
      obtain ⟨n, htext, hplain⟩ := ih hfront
      obtain ⟨d, hc, hlower⟩ := exists_isDigit_of_toLower (hlast _ List.mem_cons_self)
      refine ⟨16 * n + d, htext.next hc, ?_⟩
      rw [List.map_append]
      exact hplain.next hlower
  | gap _ ih =>
      obtain ⟨hfront, hlast⟩ := List.forall_mem_append.mp hdigits
      obtain ⟨n, htext, hplain⟩ := ih hfront
      obtain ⟨d, hc, hlower⟩ := exists_isDigit_of_toLower (hlast _ List.mem_cons_self)
      refine ⟨16 * n + d, htext.gap hc, ?_⟩
      rw [List.map_append]
      exact hplain.next hlower

theorem Numeral.cons_zero {text : List Char} {n : ℕ} (h : Numeral text n) :
    Numeral ('0' :: text) n := by
  have hzero : Numeral ['0'] 0 := .digit isZero_zero.isDigit
  rw [← natural?_eq_some_iff, ← List.singleton_append, hzero.natural?_append]
  obtain ⟨c, rest, d, rfl, hc⟩ := h.exists_cons
  rw [digits?_cons hc.ne_underscore, Nat.mul_zero]
  simp only [Nat.zero_add]
  exact natural?_eq_some_iff.mpr h

theorem Numeral.replicate_zero {text : List Char} {n : ℕ} (h : Numeral text n) (leading : ℕ) :
    Numeral (List.replicate leading '0' ++ text) n := by
  induction leading with
  | zero => exact h
  | succ leading ih => exact ih.cons_zero

theorem numeral_toDigits (n : ℕ) : Numeral (Nat.toDigits 16 n) n := by
  rw [← natural?_eq_some_iff, ← List.append_nil (Nat.toDigits 16 n), natural?_toDigits_append,
    digits?]

theorem Numeral.unique {text : List Char} {n m : ℕ} (hn : Numeral text n) (hm : Numeral text m) :
    n = m := by
  rw [← natural?_eq_some_iff] at hn hm
  exact Option.some.inj (hn.symm.trans hm)

theorem Renders.spells {n : ℕ} {line : List Char} (h : Renders n line) :
    Spells IsZero line n := by
  obtain ⟨mark, leading, digits, text, hmark, htext, hlower, rfl⟩ := h
  have hmem : ∀ c ∈ digits, c.toLower ∈ lowerDigits := by
    intro c hc
    have hc := List.mem_map_of_mem (f := Char.toLower) hc
    rw [hlower] at hc
    rcases List.mem_append.mp hc with hc | hc
    · rw [List.eq_of_mem_replicate hc]
      decide
    · exact mem_lowerDigits_of_mem_toDigits hc
  obtain ⟨m, hnumeral, hplain⟩ := htext.exists_numeral hmem
  rw [hlower] at hplain
  obtain rfl : n = m := ((numeral_toDigits n).replicate_zero leading).unique hplain
  refine .bare (hmark.mono ?_) hnumeral
  rintro c rfl
  exact isZero_zero

end VisitGraph.Text.Hexadecimal
