import VisitGraph.Proofs.Numeric.Hundredths
import VisitGraph.Proofs.Numeric.Overflow
import VisitGraph.Proofs.Numeric.Reading
import VisitGraph.Proofs.Numeric.Written

/-! # Faithful texts

An integer is written with all its digits unless it overflows, and so is a floating point number
with an integral value. Any other number is written as its shortest decimal number. Each of these
texts is read as the number again, so different numbers have different texts. -/

namespace VisitGraph.Numeric

/-! ## Integers -/

namespace Decimal

theorem denotes_digits (n : ℕ) : Denotes (digits n) ⟨n, 0⟩ := by
  have hdenotes := Denotes.whole (allDigits_digits n) Nat.toDigits_ne_nil .none
  rwa [List.append_nil, naturalOfDigits_digits] at hdenotes

theorem signedValue_natAbs (n : ℤ) : signedValue (n < 0) ⟨n.natAbs, 0⟩ = n := by
  rw [signedValue, value_eq, zpow_zero, mul_one, Nat.cast_natAbs]
  by_cases hn : n < 0
  · rw [if_pos (decide_eq_true hn), abs_of_neg hn, Int.cast_neg, neg_neg]
  · rw [if_neg (by simpa using hn), abs_of_nonneg (not_lt.mp hn)]

/-- The text of an integer has the value of the integer. -/
theorem readValue?_toString (n : ℤ) : readValue? (toString n).toList = some (n : ℚ) := by
  rw [toString_eq_signed, (denotes_digits _).readValue?_signed, signedValue_natAbs]

end Decimal

namespace Binary64

variable {x y : Binary64} {v : ℚ} {n : ℤ}

/-- It is read as the number nearest to the integer. -/
theorem read?_toString (n : ℤ) : read? (toString n).toList = some (ofInt n) := by
  rw [toString_eq_signed, (Decimal.denotes_digits _).read?_signed, Decimal.toBinary64,
    Decimal.ratio_eq, ofInt, Int.toNat_zero, neg_zero, Int.toNat_zero, Nat.pow_zero, Nat.mul_one]

/-! ## Exact values -/

/-- A number with a value is nearest to it. -/
theorem isNearest_of_value? (h : x.value? = some v) : IsNearest v x := by
  refine ⟨v, h, fun y w hy => ?_⟩
  rw [sub_self, abs_zero]
  exact ⟨abs_nonneg _, fun heq => .inl (sub_eq_zero.mp (abs_eq_zero.mp heq.symm)).symm⟩

theorem exists_eq_finite (h : x.value? = some v) : ∃ negative rank, x = finite negative rank := by
  cases x with
  | nan => cases h
  | infinity negative => cases h
  | finite negative rank => exact ⟨negative, rank, rfl⟩

theorem finite_value?_eq_int_iff {negative : Bool} {rank : Fin rankCount} :
    (finite negative rank).value? = some (n : ℚ) ↔ signedUnits negative rank = n * unitsPerOne := by
  have hone : (unitsPerOne : ℚ) ≠ 0 := by exact_mod_cast unitsPerOne_pos.ne'
  rw [value?, Option.some.injEq, div_eq_iff hone, ← Int.cast_natCast unitsPerOne, ← Int.cast_mul,
    Int.cast_inj]

/-- Only the zeros have equal values. -/
theorem eq_of_value?_eq (hx : x.value? = some v) (hy : y.value? = some v) (hv : v ≠ 0) :
    x = y := by
  have hone : (unitsPerOne : ℚ) ≠ 0 := by exact_mod_cast unitsPerOne_pos.ne'
  obtain ⟨a, i, rfl⟩ := exists_eq_finite hx
  obtain ⟨b, j, rfl⟩ := exists_eq_finite hy
  have hunits : signedUnits a i = signedUnits b j := by
    have hquotients := Option.some.inj (hx.trans hy.symm)
    rw [div_left_inj' hone] at hquotients
    exact_mod_cast hquotients
  have hrank : i = j := by
    have hmagnitudes := congrArg Int.natAbs hunits
    rw [natAbs_signedUnits, natAbs_signedUnits] at hmagnitudes
    exact Fin.ext (unitsOfRank_strictMono.injective hmagnitudes)
  subst hrank
  by_cases hsign : b = a
  · rw [hsign]
  · rw [Bool.eq_not.mpr hsign, signedUnits_not] at hunits
    have hzero : signedUnits a i = 0 := by omega
    rw [value?, hzero, Int.cast_zero, zero_div] at hx
    exact absurd (Option.some.inj hx).symm hv

theorem exists_eq_zero (h : x.value? = some 0) : ∃ negative, x = zero negative := by
  obtain ⟨negative, rank, rfl⟩ := exists_eq_finite h
  rw [← Int.cast_zero, finite_value?_eq_int_iff, Int.zero_mul] at h
  refine ⟨negative, finite_eq_zero ?_⟩
  rw [← natAbs_signedUnits negative, h, Int.natAbs_zero]

/-- The integral values are those of integers. -/
theorem toInt?_eq_some_iff : x.toInt? = some n ↔ x.value? = some (n : ℚ) := by
  have hone : (unitsPerOne : ℤ) ≠ 0 := by exact_mod_cast unitsPerOne_pos.ne'
  rcases x with _ | _ | ⟨negative, rank⟩
  · exact iff_of_false nofun nofun
  · exact iff_of_false nofun nofun
  · have hdvd : unitsOfRank rank % unitsPerOne = 0 ↔
        (unitsPerOne : ℤ) ∣ signedUnits negative rank := by
      rw [← Nat.dvd_iff_mod_eq_zero, ← natAbs_signedUnits negative, Int.natCast_dvd]
    rw [finite_value?_eq_int_iff, toInt?]
    split
    · rename_i hunits
      rw [Option.some.injEq, Int.ediv_eq_iff_eq_mul_left hone (hdvd.mp hunits)]
    · rename_i hunits
      refine iff_of_false nofun fun h => hunits (hdvd.mpr ?_)
      exact Dvd.intro_left n h.symm

/-- The integer that a number is equal to is met exactly. -/
theorem value?_ofInt (h : x.value? = some (n : ℚ)) : (ofInt n).value? = some (n : ℚ) := by
  obtain ⟨negative, rank, rfl⟩ := exists_eq_finite h
  rw [finite_value?_eq_int_iff] at h
  have hunits : unitsOfRank rank = n.natAbs * unitsPerOne := by
    rw [← natAbs_signedUnits negative, h, Int.natAbs_mul, Int.natAbs_natCast]
  have hrank : nearestRank (n.natAbs * unitsPerOne) 1 = rank := by
    rw [← hunits, nearestRank_unitsOfRank]
  have hlt : nearestRank (n.natAbs * unitsPerOne) 1 < rankCount := by
    rw [hrank]
    exact rank.isLt
  have hmagnitude : unitsOfRank (nearestRank (n.natAbs * unitsPerOne) 1) =
      n.natAbs * unitsPerOne := by rw [hrank, hunits]
  have hholds : Holds (ofInt n) n ⟨_, hlt⟩ := ⟨ofUnits_eq_finite hlt _, hmagnitude⟩
  rw [hholds.eq_finite, finite_value?_eq_int_iff]
  exact hholds.signedUnits_eq

theorem ofInt_eq_of_value? (h : x.value? = some (n : ℚ)) (hx : x ≠ zero true) : ofInt n = x := by
  by_cases hn : n = 0
  · subst hn
    rw [Int.cast_zero] at h
    obtain ⟨negative, rfl⟩ := exists_eq_zero h
    cases negative with
    | false =>
        rw [ofInt, ofRatio, Int.natAbs_zero, Nat.zero_mul, decide_eq_false (lt_irrefl 0), zero]
    | true => exact absurd rfl hx
  · exact eq_of_value?_eq (value?_ofInt h) h (Int.cast_ne_zero.mpr hn)

/-! ## Texts -/

/-- The number is nearest to the exact value of the text, and reading the text gives it back, but
for the minus of a zero. An integral value is written with its digits alone. -/
structure ReadsBack (text : String) (x : Binary64) (v : ℚ) : Prop where
  nearest : ∃ q, Decimal.readValue? text.toList = some q ∧ IsNearest q x
  reads : ∃ y, read? text.toList = some y ∧ y.value? = some v ∧ (x ≠ zero true → y = x)
  integral : ∀ n : ℤ, v = n → text = toString n

theorem plainText_of_value? (h : x.value? = some (n : ℚ)) : x.plainText = toString n := by
  rw [plainText, toInt?_eq_some_iff.mpr h]

theorem readsBack_toString (h : x.value? = some (n : ℚ)) : ReadsBack (toString n) x n where
  nearest := ⟨n, Decimal.readValue?_toString n, isNearest_of_value? h⟩
  reads := ⟨ofInt n, read?_toString n, value?_ofInt h, ofInt_eq_of_value? h⟩
  integral m hm := by rw [Int.cast_inj.mp hm]

/-- The shortest text of a number that is not an integer is read as the number. -/
theorem readsBack_text {negative : Bool} {rank : Fin rankCount}
    (h : (finite negative rank).value? = some v) (hv : ∀ n : ℤ, v ≠ n) :
    ReadsBack (finite negative rank).text (finite negative rank) v := by
  obtain ⟨d, hdenotes, hvalue⟩ := Decimal.exists_denotes_text (Decimal.shortest rank)
  have hrank := Decimal.hasRank_shortest rank
  have hsigned : Decimal.signedValue negative d =
      Decimal.signedValue negative (Decimal.shortest rank) := by
    rw [Decimal.signedValue, Decimal.signedValue, hvalue]
  rw [text, textWith]
  refine ⟨⟨_, hdenotes.readValue?_signed negative, ?_⟩, ⟨finite negative rank, ?_, h, fun _ => rfl⟩,
    fun n hn => absurd hn (hv n)⟩
  · rw [hsigned]
    exact hrank.isNearest negative
  · rw [hdenotes.read?_signed, Decimal.toBinary64_congr hvalue, hrank.toBinary64_eq]

theorem readsBack_plainText (h : x.value? = some v) : ReadsBack x.plainText x v := by
  by_cases hintegral : ∃ n : ℤ, v = n
  · obtain ⟨n, rfl⟩ := hintegral
    rw [plainText_of_value? h]
    exact readsBack_toString h
  · obtain ⟨negative, rank, rfl⟩ := exists_eq_finite h
    have htoInt : (finite negative rank).toInt? = none := by
      rw [Option.eq_none_iff_forall_ne_some]
      intro n hn
      have hvalue := toInt?_eq_some_iff.mp hn
      exact hintegral ⟨n, Option.some.inj (h.symm.trans hvalue)⟩
    rw [plainText, htoInt]
    exact readsBack_text h fun n hn => hintegral ⟨n, hn⟩

/-- Two numbers have the same text if they are equal, and only then. -/
theorem plainText_eq_iff {w : ℚ} (hx : x.value? = some v) (hy : y.value? = some w) :
    x.plainText = y.plainText ↔ v = w := by
  constructor
  · intro heq
    obtain ⟨x', hx', hv, -⟩ := (readsBack_plainText hx).reads
    obtain ⟨y', hy', hw, -⟩ := (readsBack_plainText hy).reads
    rw [heq, hy'] at hx'
    rw [Option.some.inj hx', hv] at hw
    exact Option.some.inj hw
  · rintro rfl
    by_cases hv : v = 0
    · -- the zeros may differ in their sign, which is not written
      rw [hv, ← Int.cast_zero] at hx hy
      rw [plainText_of_value? hx, plainText_of_value? hy]
    · rw [eq_of_value?_eq hx hy hv]

end Binary64

namespace Quantity

/-- An integer is written with all its digits, unless it overflows. -/
theorem plainText_int (n : ℤ) : (int n).plainText =
    if |n| < 2 ^ 1024 - 2 ^ 970 then .ok (toString n) else .error .beyondBinary64 := by
  rw [plainText, Binary64.ofInt?_eq]
  split <;> rfl

/-- An integer is written with all its digits unless it overflows. What is written of a floating
point number is read as the number again, and two of them are written alike only if they are
equal. -/
theorem plainText_faithful :
    (∀ n : ℤ, (int n).plainText =
        (if |n| < 2 ^ 1024 - 2 ^ 970 then .ok (toString n) else .error .beyondBinary64) ∧
      Decimal.readValue? (toString n).toList = some (n : ℚ)) ∧
    (∀ x v, x.value? = some v →
      ∃ text, (real x).plainText = .ok text ∧ Binary64.ReadsBack text x v) ∧
    ∀ x y v w, x.value? = some v → y.value? = some w →
      ((real x).plainText = (real y).plainText ↔ v = w) := by
  refine ⟨fun n => ⟨plainText_int n, Decimal.readValue?_toString n⟩, fun x v hx => ?_,
    fun x y v w hx hy => ?_⟩
  · exact ⟨x.plainText, rfl, Binary64.readsBack_plainText hx⟩
  · rw [plainText, plainText, Except.ok.injEq]
    exact Binary64.plainText_eq_iff hx hy

/-- The first integer that overflows, and the number next to zero, with a minus. -/
theorem plainText_faithful_edges :
    (int (2 ^ 1024 - 2 ^ 970)).plainText = .error .beyondBinary64 ∧
      (real (.finite true ⟨1, by decide⟩)).plainText = .ok "-5e-324" ∧
      Binary64.ReadsBack "-5e-324" (.finite true ⟨1, by decide⟩) (-1 / unitsPerOne) := by
  have htext : (real (.finite true ⟨1, by decide⟩)).plainText = .ok "-5e-324" := by
    decide +kernel
  obtain ⟨hint, hreal, -⟩ := plainText_faithful
  refine ⟨?_, htext, ?_⟩
  · have hnonneg : (0 : ℤ) ≤ 2 ^ 1024 - 2 ^ 970 :=
      sub_nonneg.mpr (pow_le_pow_right₀ (by decide) (by decide))
    rw [(hint _).1, abs_of_nonneg hnonneg, if_neg (lt_irrefl _)]
  · obtain ⟨text, heq, hreads⟩ := hreal (.finite true ⟨1, by decide⟩) (-1 / unitsPerOne) rfl
    rw [htext] at heq
    rwa [← Except.ok.inj heq] at hreads

end Quantity

end VisitGraph.Numeric
