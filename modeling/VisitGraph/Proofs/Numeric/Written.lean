import Mathlib.Data.List.Basic
import VisitGraph.Numeric.Quantity
import VisitGraph.Proofs.Outcome

/-! # The characters of written numbers

However a number is written, it consists of letters, digits, signs and points. Such a text is a
single word, and can stand between blanks, commas, brackets or quotes without being mistaken. -/

namespace VisitGraph

/-- A letter or digit of the first script, a sign or a point. -/
def isPlain (c : Char) : Bool :=
  c.isAlphanum || c == '-' || c == '+' || c == '.'

/-- Nothing but letters, digits, signs and points. -/
def Plain (text : List Char) : Prop :=
  ∀ c ∈ text, isPlain c = true

instance : DecidablePred Plain := fun text =>
  List.decidableBAll (fun c => isPlain c = true) text

namespace Plain

theorem notMem {text : List Char} (h : Plain text) {c : Char} (hc : isPlain c = false) :
    c ∉ text := by
  intro hmem
  rw [h c hmem] at hc
  cases hc

theorem nil : Plain [] := by
  decide

theorem cons {c : Char} {text : List Char} (hc : isPlain c = true) (h : Plain text) :
    Plain (c :: text) :=
  List.forall_mem_cons.mpr ⟨hc, h⟩

theorem append {front rest : List Char} (hfront : Plain front) (hrest : Plain rest) :
    Plain (front ++ rest) :=
  List.forall_mem_append.mpr ⟨hfront, hrest⟩

theorem subset {text more : List Char} (h : Plain more) (hsub : text ⊆ more) : Plain text :=
  fun c hc => h c (hsub hc)

theorem replicate {c : Char} (hc : isPlain c = true) (n : ℕ) : Plain (List.replicate n c) := by
  intro d hd
  rwa [List.eq_of_mem_replicate hd]

end Plain

/-! ## Integers -/

theorem isPlain_of_isDigit {c : Char} (h : c.isDigit = true) : isPlain c = true := by
  simp [isPlain, Char.isAlphanum, h]

theorem plain_digits (n : ℕ) : Plain (Nat.toDigits 10 n) :=
  fun _ hc => isPlain_of_isDigit (Nat.isDigit_of_mem_toDigits (by decide) (by decide) hc)

/-- An integer is written as the digits of its magnitude, with its sign. -/
theorem toString_eq_signed (n : Int) :
    toString n = Numeric.Binary64.signed (n < 0) (Numeric.Decimal.digits n.natAbs) := by
  cases n with
  | ofNat n => exact Nat.toString_eq_ofList_toDigits
  | negSucc n =>
      rw [Numeric.Binary64.signed, if_pos (decide_eq_true (Int.negSucc_lt_zero n)),
        ← String.toList_inj, String.toList_ofList]
      change ("-" ++ (n + 1).repr).toList = '-' :: Nat.toDigits 10 (n + 1)
      rw [String.toList_append, Nat.toList_repr]
      rfl

/-- A decimal number is written with digits and perhaps a minus. -/
theorem isDigit_or_eq_minus_of_mem_toString {n : Int} {c : Char} (h : c ∈ (toString n).toList) :
    c.isDigit ∨ c = '-' := by
  have hdigit : ∀ d ∈ Numeric.Decimal.digits n.natAbs, d.isDigit = true := fun _ hd =>
    Nat.isDigit_of_mem_toDigits (by decide) (by decide) hd
  rw [toString_eq_signed, Numeric.Binary64.signed, String.toList_ofList] at h
  split at h
  · exact (List.mem_cons.mp h).symm.imp_left (hdigit c)
  · exact .inl (hdigit c h)

theorem plain_toString (n : Int) : Plain (toString n).toList := by
  intro c hc
  rcases isDigit_or_eq_minus_of_mem_toString hc with hdigit | rfl
  · exact isPlain_of_isDigit hdigit
  · decide

namespace Numeric

/-! ## Decimal numbers -/

namespace Decimal

theorem plain_stripZeros {ds : List Char} (h : Plain ds) : Plain (stripZeros ds) := by
  refine h.subset fun c hc => ?_
  rw [stripZeros, List.mem_reverse] at hc
  exact List.mem_reverse.mp ((List.dropWhile_sublist _).subset hc)

theorem plain_powerText (exponent : Int) : Plain (powerText exponent) := by
  refine .cons (by decide) (.cons ?_ (.append (.replicate (by decide) _) (plain_digits _)))
  split <;> decide

theorem plain_plainText {style : Style} (hstyle : Plain style.wholeEnd.toList) {ds : List Char}
    (h : Plain ds) (exponent : Int) : Plain (plainText style ds exponent) := by
  rw [plainText]
  split
  · exact .append (.cons (by decide) (.cons (by decide) (.replicate (by decide) _))) h
  · dsimp only
    split
    · exact .append (.append h (.replicate (by decide) _)) hstyle
    · exact .append (h.subset (List.take_subset _ _))
        (.cons (by decide) (h.subset (List.drop_subset _ _)))

theorem plain_powerForm {ds : List Char} (h : Plain ds) (exponent : Int) :
    Plain (powerForm ds exponent) := by
  cases ds with
  | nil => exact .nil
  | cons first rest =>
      obtain ⟨hfirst, hrest⟩ := List.forall_mem_cons.mp h
      cases rest with
      | nil => exact .cons hfirst (plain_powerText exponent)
      | cons => exact .cons hfirst (.cons (by decide) (.append hrest (plain_powerText exponent)))

theorem plain_text {style : Style} (hstyle : Plain style.wholeEnd.toList) (d : Decimal) :
    Plain (d.text style) := by
  rw [text]
  split
  · exact plain_plainText hstyle (by decide) 0
  · dsimp only
    have hdigits : Plain (stripZeros (digits d.coefficient)) := plain_stripZeros (plain_digits _)
    split
    · exact plain_plainText hstyle hdigits _
    · exact plain_powerForm hdigits _

end Decimal

/-! ## Binary numbers -/

namespace Binary64

theorem plain_signed (negative : Bool) {text : List Char} (h : Plain text) :
    Plain (signed negative text).toList := by
  rw [signed, String.toList_ofList]
  split
  · exact .cons (by decide) h
  · exact h

theorem plain_textWith {write : ℕ → List Char} (h : ∀ rank, Plain (write rank)) (x : Binary64) :
    Plain (textWith write x).toList := by
  cases x with
  | nan => exact (by decide : Plain "nan".toList)
  | infinity negative => exact plain_signed negative (by decide)
  | finite negative rank => exact plain_signed negative (h rank)

theorem plain_plainText (x : Binary64) : Plain x.plainText.toList := by
  rw [plainText]
  split
  · exact plain_toString _
  · exact plain_textWith (fun rank => Decimal.plain_text (by decide) _) x

theorem plain_briefText (x : Binary64) : Plain x.briefText.toList := by
  refine plain_textWith (fun rank => ?_) x
  have hstyle : Plain Decimal.Style.brief.wholeEnd.toList := by decide
  split <;> exact Decimal.plain_text hstyle _

end Binary64

theorem Quantity.plain_shareText {q : Quantity} {text : String} (h : q.shareText = .ok text) :
    Plain text.toList := by
  cases q with
  | int n =>
      simp only [shareText, bind_eq_ok, pure_eq_ok] at h
      obtain ⟨x, -, rfl⟩ := h
      exact Binary64.plain_briefText x
  | real x =>
      cases h
      exact Binary64.plain_briefText _

end Numeric

end VisitGraph
