import Mathlib.Tactic.IntervalCases
import VisitGraph.Text.Blank
import VisitGraph.Text.Hexadecimal

/-! # Reading written hexadecimal numbers

A number of any size that is written in lower case digits is read back. -/

namespace VisitGraph.Text.Hexadecimal

/-- The digits that are written. -/
def lowerDigits : List Char :=
  ['0', '1', '2', '3', '4', '5', '6', '7', '8', '9', 'a', 'b', 'c', 'd', 'e', 'f']

theorem hexDigit?_digitChar {d : Nat} (h : d < 16) : hexDigit? d.digitChar = some d := by
  interval_cases d <;> decide

theorem digitChar_mem_lowerDigits {d : Nat} (h : d < 16) : d.digitChar ∈ lowerDigits := by
  interval_cases d <;> decide

theorem isBlank_of_mem_lowerDigits {c : Char} (h : c ∈ lowerDigits) : isBlank c = false := by
  have hall : lowerDigits.all (!isBlank ·) = true := by decide
  simpa using List.all_eq_true.mp hall c h

theorem digits?_cons {c : Char} (h : c ≠ '_') (value : Nat) (rest : List Char) :
    digits? value (c :: rest) = (hexDigit? c).bind fun d => digits? (16 * value + d) rest := by
  rw [digits?]
  · rfl
  · rintro d rest' rfl
    exact absurd rfl h

theorem ne_underscore_of_mem_lowerDigits {c : Char} (h : c ∈ lowerDigits) : c ≠ '_' := by
  rintro rfl
  exact absurd h (by decide)

theorem mem_lowerDigits_of_mem_toDigits {n : Nat} {c : Char} (h : c ∈ Nat.toDigits 16 n) :
    c ∈ lowerDigits := by
  induction n using Nat.strongRecOn with
  | ind n ih =>
      rw [Nat.toDigits_eq_if (by decide)] at h
      split at h
      · rename_i hn
        rw [List.mem_singleton.mp h]
        exact digitChar_mem_lowerDigits hn
      · rename_i hn
        rcases List.mem_append.mp h with h | h
        · exact ih (n / 16) (by omega) h
        · rw [List.mem_singleton.mp h]
          exact digitChar_mem_lowerDigits (Nat.mod_lt n (by decide))

/-- After the digits of a number, reading goes on from that number. -/
theorem natural?_toDigits_append (n : Nat) (rest : List Char) :
    natural? (Nat.toDigits 16 n ++ rest) = digits? n rest := by
  induction n using Nat.strongRecOn generalizing rest with
  | ind n ih =>
      rw [Nat.toDigits_eq_if (by decide)]
      split
      · rename_i hn
        change (hexDigit? n.digitChar).bind (digits? · rest) = _
        rw [hexDigit?_digitChar hn, Option.bind_some]
      · rename_i hn
        have hlast : n % 16 < 16 := Nat.mod_lt n (by decide)
        have hne := ne_underscore_of_mem_lowerDigits (digitChar_mem_lowerDigits hlast)
        rw [List.append_assoc, ih (n / 16) (by omega), List.singleton_append, digits?_cons hne,
          hexDigit?_digitChar hlast, Option.bind_some, Nat.div_add_mod]

theorem dropBaseMark_eq_self {text : List Char} (h : 'x' ∉ text) (h' : 'X' ∉ text) :
    dropBaseMark text = text := by
  match text with
  | [] => rfl
  | [_] => rfl
  | c :: d :: rest =>
      have hd : ¬ (d = 'x' ∨ d = 'X') := by
        rintro (rfl | rfl)
        · simp at h
        · simp at h'
      rw [dropBaseMark, if_neg fun hmark => hd hmark.2]

theorem takeSign_eq_self {text : List Char} (h : '-' ∉ text) (h' : '+' ∉ text) :
    takeSign text = (false, text) := by
  rw [takeSign]
  · rintro rest rfl
    simp at h
  · rintro rest rfl
    simp at h'

theorem notMem_toDigits {c : Char} (h : c ∉ lowerDigits) (n : Nat) : c ∉ Nat.toDigits 16 n :=
  fun hmem => h (mem_lowerDigits_of_mem_toDigits hmem)

theorem natural?_dropBaseMark_toDigits (n : Nat) :
    natural? (dropBaseMark (Nat.toDigits 16 n)) = some n := by
  have hlower := notMem_toDigits (c := 'x') (by decide) n
  have hupper := notMem_toDigits (c := 'X') (by decide) n
  rw [dropBaseMark_eq_self hlower hupper, ← List.append_nil (Nat.toDigits 16 n),
    natural?_toDigits_append, digits?]

theorem read?_write (n : Int) : read? (write n) = some n := by
  rw [write]
  split
  · rename_i hn
    simp only [read?, takeSign, natural?_dropBaseMark_toDigits, Option.bind_eq_bind,
      Option.bind_some, if_true, Option.pure_def]
    congr 1
    omega
  · rename_i hn
    have hminus := notMem_toDigits (c := '-') (by decide) n.natAbs
    have hplus := notMem_toDigits (c := '+') (by decide) n.natAbs
    rw [read?, takeSign_eq_self hminus hplus]
    simp only [natural?_dropBaseMark_toDigits, Option.bind_eq_bind, Option.bind_some,
      Option.pure_def, Bool.false_eq_true, if_false]
    congr 1
    omega

theorem mem_lowerDigits_of_mem_write {n : Int} (hn : 0 ≤ n) {c : Char} (h : c ∈ write n) :
    c ∈ lowerDigits := by
  rw [write, if_neg (by omega)] at h
  exact mem_lowerDigits_of_mem_toDigits h

theorem write_ne_nil (n : Int) : write n ≠ [] := by
  rw [write]
  split
  · exact List.cons_ne_nil _ _
  · exact Nat.toDigits_ne_nil

end VisitGraph.Text.Hexadecimal
