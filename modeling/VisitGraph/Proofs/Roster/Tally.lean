import Mathlib.Algebra.BigOperators.Group.List.Lemmas
import Mathlib.Algebra.GroupWithZero.Nat
import Mathlib.Data.List.Induction
import VisitGraph.Roster

/-! # Rosters by key

A roster with one value for each of some keys answers with the value of the key. A tally is such a
roster: its keys in the order of their first occurrence, each with the number of its occurrences. -/

namespace VisitGraph

/-! ## Distinct elements by first occurrence -/

section

variable {κ : Type} [BEq κ] [LawfulBEq κ]

theorem eraseDups_concat_of_mem {ks : List κ} {k : κ} (h : k ∈ ks) :
    (ks ++ [k]).eraseDups = ks.eraseDups := by
  simp [List.eraseDups_append, List.removeAll, h]

theorem eraseDups_concat_of_notMem {ks : List κ} {k : κ} (h : k ∉ ks) :
    (ks ++ [k]).eraseDups = ks.eraseDups ++ [k] := by
  simp [List.eraseDups_append, List.removeAll, h, List.eraseDups_cons]

theorem nodup_eraseDups (ks : List κ) : ks.eraseDups.Nodup := by
  induction ks using List.reverseRecOn with
  | nil => simp
  | append_singleton ks k ih =>
      by_cases h : k ∈ ks
      · rwa [eraseDups_concat_of_mem h]
      · rw [eraseDups_concat_of_notMem h]
        refine List.nodup_append.mpr ⟨ih, List.nodup_singleton k, ?_⟩
        simpa using fun a ha => ne_of_mem_of_not_mem ha h

/-- A function that keeps the elements apart keeps their order by first occurrence. -/
theorem eraseDups_map_of_injOn {κ' : Type} [BEq κ'] [LawfulBEq κ'] {f : κ → κ'} {ks : List κ}
    (h : ∀ k ∈ ks, ∀ k' ∈ ks, f k = f k' → k = k') :
    (ks.map f).eraseDups = ks.eraseDups.map f := by
  induction ks using List.reverseRecOn with
  | nil => rfl
  | append_singleton ks k ih =>
      have ih := ih fun a ha b hb =>
        h a (List.mem_append_left _ ha) b (List.mem_append_left _ hb)
      rw [List.map_append, List.map_singleton]
      by_cases hk : k ∈ ks
      · rw [eraseDups_concat_of_mem hk, eraseDups_concat_of_mem (List.mem_map_of_mem hk), ih]
      · have hfk : f k ∉ ks.map f := by
          intro hmem
          obtain ⟨k', hk', heq⟩ := List.mem_map.mp hmem
          rw [h k' (List.mem_append_left _ hk') k (by simp) heq] at hk'
          exact hk hk'
        rw [eraseDups_concat_of_notMem hk, eraseDups_concat_of_notMem hfk, ih, List.map_append,
          List.map_singleton]

/-- Elements that a function keeps apart from one of them are counted as before. -/
theorem count_map_of_injOn {κ' : Type} [BEq κ'] [LawfulBEq κ'] {f : κ → κ'} {ks : List κ} {k : κ}
    (h : ∀ k' ∈ ks, f k' = f k → k' = k) : (ks.map f).count (f k) = ks.count k := by
  rw [List.count, List.countP_map, List.count]
  refine List.countP_congr fun k' hk' => ?_
  simpa using ⟨h k' hk', congrArg f⟩

theorem eraseDups_perm_dedup {κ : Type} [DecidableEq κ] (ks : List κ) :
    ks.eraseDups.Perm ks.dedup := by
  rw [List.perm_ext_iff_of_nodup (nodup_eraseDups ks) ks.nodup_dedup]
  simp

end

namespace Roster

variable {κ α : Type} [DecidableEq κ]

/-! ## One value for each key -/

theorem get?_mk_map (ks : List κ) (f : κ → α) (k : κ) :
    (⟨ks.map fun k => (k, f k)⟩ : Roster κ α).get? k = if k ∈ ks then some (f k) else none := by
  induction ks with
  | nil => rfl
  | cons k' ks ih =>
      have ih : List.lookup k (ks.map fun k => (k, f k)) = _ := ih
      rw [get?, List.map_cons, List.lookup_cons, ih]
      by_cases h : k = k'
      · simp [h]
      · simp [h, beq_false_of_ne h]

theorem get?_put (r : Roster κ α) (k : κ) (a : α) (k' : κ) :
    (r.put k a).get? k' = if k' = k then some a else r.get? k' := by
  obtain ⟨entries⟩ := r
  simp only [put, alter, get?]
  induction entries with
  | nil =>
      by_cases h : k' = k
      · simp [alterEntries, h]
      · simp [alterEntries, List.lookup_cons, h, beq_false_of_ne h]
  | cons entry entries ih =>
      obtain ⟨k'', b⟩ := entry
      rw [alterEntries]
      by_cases hkey : k'' = k
      · subst hkey
        by_cases h : k' = k''
        · simp [h]
        · simp [List.lookup_cons, h, beq_false_of_ne h]
      · rw [if_neg hkey, List.lookup_cons, List.lookup_cons, ih]
        by_cases h : k' = k''
        · simp [h, hkey]
        · simp [beq_false_of_ne h]

theorem alterEntries_of_notMem {entries : List (κ × α)} {k : κ} (h : k ∉ entries.map Prod.fst)
    (g : Option α → α) : alterEntries k g entries = entries ++ [(k, g none)] := by
  induction entries with
  | nil => rfl
  | cons entry entries ih =>
      obtain ⟨hne, hmem⟩ : k ≠ entry.1 ∧ k ∉ entries.map Prod.fst := by simpa using h
      rw [alterEntries, if_neg (Ne.symm hne), ih hmem, List.cons_append]

theorem alterEntries_map_of_notMem {ks : List κ} {k : κ} (h : k ∉ ks) (f : κ → α)
    (g : Option α → α) :
    alterEntries k g (ks.map fun k => (k, f k)) = ks.map (fun k => (k, f k)) ++ [(k, g none)] :=
  alterEntries_of_notMem (by simpa using h) g

/-- Changing the value of one key leaves the other keys and the order alone. -/
theorem alterEntries_map_of_mem {ks : List κ} {k : κ} (h : k ∈ ks) (hnd : ks.Nodup) (f : κ → α)
    (g : Option α → α) :
    alterEntries k g (ks.map fun k => (k, f k)) =
      ks.map fun k' => (k', if k' = k then g (some (f k')) else f k') := by
  induction ks with
  | nil => simp at h
  | cons k' ks ih =>
      obtain ⟨hfresh, hnd⟩ := List.nodup_cons.mp hnd
      rw [List.map_cons, alterEntries, List.map_cons]
      by_cases hk : k' = k
      · subst hk
        rw [if_pos rfl, if_pos rfl]
        congr 1
        refine List.map_congr_left fun k hmem => ?_
        rw [if_neg (ne_of_mem_of_not_mem hmem hfresh)]
      · rw [if_neg hk, if_neg hk, ih ((List.mem_cons.mp h).resolve_left (Ne.symm hk)) hnd]

/-- Entries with distinct keys are kept as they are. -/
theorem entries_ofList {entries : List (κ × α)} (h : (entries.map Prod.fst).Nodup) :
    (ofList entries).entries = entries := by
  induction entries using List.reverseRecOn with
  | nil => rfl
  | append_singleton entries entry ih =>
      rw [List.map_append, List.map_singleton] at h
      obtain ⟨hnd, -, hdisjoint⟩ := List.nodup_append.mp h
      have hfresh : entry.1 ∉ entries.map Prod.fst := fun hmem =>
        hdisjoint _ hmem _ (List.mem_singleton_self _) rfl
      have hstep : (ofList (entries ++ [entry])).entries =
          alterEntries entry.1 (fun _ => entry.2) (ofList entries).entries := by
        rw [ofList, List.foldl_append]
        rfl
      rw [hstep, ih hnd, alterEntries_of_notMem hfresh]

theorem get?_eq_some_of_mem {r : Roster κ α} (hnd : r.keys.Nodup) {k : κ} {a : α}
    (h : (k, a) ∈ r.entries) : r.get? k = some a := by
  obtain ⟨before, after, hentries⟩ := List.append_of_mem h
  refine List.lookup_eq_some_iff.mpr ⟨before, after, hentries, ?_⟩
  rintro ⟨k', a'⟩ hmem
  have hkeys : (before.map Prod.fst ++ k :: after.map Prod.fst).Nodup := by
    simpa [keys, hentries] using hnd
  have hne := (List.nodup_append.mp hkeys).2.2 k' (List.mem_map_of_mem hmem) k (by simp)
  simpa using Ne.symm hne

/-! ## Tallies -/

theorem entries_tally (ks : List κ) :
    (tally ks).entries = ks.eraseDups.map fun k => (k, ks.count k) := by
  induction ks using List.reverseRecOn with
  | nil => rfl
  | append_singleton ks k ih =>
      have hstep : (tally (ks ++ [k])).entries =
          alterEntries k (fun n => n.getD 0 + 1) (ks.eraseDups.map fun k => (k, ks.count k)) := by
        rw [tally, List.foldl_append, ← ih]
        rfl
      rw [hstep]
      by_cases h : k ∈ ks
      · rw [eraseDups_concat_of_mem h,
          alterEntries_map_of_mem (List.mem_eraseDups.mpr h) (nodup_eraseDups ks)]
        refine List.map_congr_left fun k' _ => ?_
        by_cases hk : k' = k
        · simp [hk]
        · simp [hk, Ne.symm hk]
      · rw [eraseDups_concat_of_notMem h, alterEntries_map_of_notMem (by simpa using h),
          List.map_append]
        congr 1
        · refine List.map_congr_left fun k' hmem => ?_
          have hk : k ≠ k' := by
            rintro rfl
            exact h (List.mem_eraseDups.mp hmem)
          simp [hk]
        · simp [List.count_eq_zero_of_not_mem h]

theorem keys_tally (ks : List κ) : (tally ks).keys = ks.eraseDups := by
  simp [keys, entries_tally, Function.comp_def]

theorem get?_tally (ks : List κ) (k : κ) :
    (tally ks).get? k = if k ∈ ks then some (ks.count k) else none := by
  have h : tally ks = ⟨ks.eraseDups.map fun k => (k, ks.count k)⟩ := by
    rw [← entries_tally]
  rw [h, get?_mk_map]
  simp

theorem getD_get?_tally (ks : List κ) (k : κ) : ((tally ks).get? k).getD 0 = ks.count k := by
  rw [get?_tally]
  split
  · rfl
  · rename_i hmem
    rw [List.count_eq_zero_of_not_mem hmem, Option.getD_none]

/-- Every occurrence is counted once. -/
theorem sum_values_tally (ks : List κ) : (tally ks).values.sum = ks.length := by
  have hvalues : (tally ks).values = ks.eraseDups.map (ks.count ·) := by
    simp [values, entries_tally]
  rw [hvalues, ((eraseDups_perm_dedup ks).map _).sum_eq, List.sum_map_count_dedup_eq_length]

end VisitGraph.Roster
