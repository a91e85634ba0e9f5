import Mathlib.Data.Nat.Count
import VisitGraph.Proofs.Numeric.Share
import VisitGraph.Proofs.Transition.Links

/-! # Passages from node to node

Places of an itinerary are numbered from zero. A node is left for another one at each place where it
stands with the other one next. -/

namespace VisitGraph

/-! ## Places -/

/-- At some place the one holds, and the other only later, if ever. -/
def ComesFirst (p q : ℕ → Prop) : Prop :=
  ∃ i, p i ∧ ∀ j, q j → i < j

section

variable {κ : Type}

theorem length_filterMap_range (f : ℕ → Option κ) (n : ℕ) :
    ((List.range n).filterMap f).length = Nat.count (fun i => (f i).isSome) n := by
  induction n with
  | zero => rfl
  | succ n ih =>
      rw [List.range_succ, List.filterMap_append, List.length_append, ih, Nat.count_succ]
      cases hf : f n <;> simp [hf]

variable [DecidableEq κ]

theorem count_filterMap_range (f : ℕ → Option κ) (n : ℕ) (k : κ) :
    ((List.range n).filterMap f).count k = Nat.count (fun i => f i = some k) n := by
  induction n with
  | zero => rfl
  | succ n ih =>
      rw [List.range_succ, List.filterMap_append, List.count_append, ih, Nat.count_succ]
      cases hf : f n with
      | none => simp [hf]
      | some k' => simp [hf, List.count_singleton]

/-- Distinct elements stand in the order of the places at which they are first found. -/
theorem pairwise_eraseDups_filterMap_range (f : ℕ → Option κ) (n : ℕ) :
    ((List.range n).filterMap f).eraseDups.Pairwise fun k k' =>
      ComesFirst (fun i => i < n ∧ f i = some k) (fun i => i < n ∧ f i = some k') := by
  induction n with
  | zero => exact .nil
  | succ n ih =>
      have hlater : ∀ {k k'},
          ComesFirst (fun i => i < n ∧ f i = some k) (fun i => i < n ∧ f i = some k') →
          ComesFirst (fun i => i < n + 1 ∧ f i = some k) (fun i => i < n + 1 ∧ f i = some k') := by
        rintro k k' ⟨i, ⟨hi, hk⟩, hfirst⟩
        refine ⟨i, ⟨by omega, hk⟩, fun j ⟨hj, hk'⟩ => ?_⟩
        rcases Nat.lt_succ_iff_lt_or_eq.mp hj with hlt | rfl
        · exact hfirst j ⟨hlt, hk'⟩
        · exact hi
      have ih := ih.imp hlater
      rw [List.range_succ, List.filterMap_append]
      cases hf : f n with
      | none => simpa [hf] using ih
      | some k =>
          have hone : [n].filterMap f = [k] := by simp [hf]
          rw [hone]
          by_cases hk : k ∈ (List.range n).filterMap f
          · rwa [eraseDups_concat_of_mem hk]
          · rw [eraseDups_concat_of_notMem hk, List.pairwise_append]
            refine ⟨ih, List.pairwise_singleton _ _, fun k' hk' k'' hk'' => ?_⟩
            rw [List.mem_singleton.mp hk'']
            obtain ⟨i, hi, hfi⟩ := List.mem_filterMap.mp (List.mem_eraseDups.mp hk')
            rw [List.mem_range] at hi
            refine ⟨i, ⟨by omega, hfi⟩, fun j ⟨hj, hfj⟩ => ?_⟩
            -- the new element is found at the last place only
            have hjn : ¬ j < n := fun hlt =>
              hk (List.mem_filterMap.mpr ⟨j, List.mem_range.mpr hlt, hfj⟩)
            omega

end

namespace Transition

/-- At a place of an itinerary a node stands. -/
def IsVisit (ids : List String) (id : String) (i : ℕ) : Prop :=
  ids[i]? = some id

/-- At a place of an itinerary a node is left, for whichever one. -/
def IsDeparture (ids : List String) (source : String) (i : ℕ) : Prop :=
  ids[i]? = some source ∧ i + 1 < ids.length

/-- At a place of an itinerary a node is left for another one. -/
def IsPassage (ids : List String) (source target : String) (i : ℕ) : Prop :=
  ids[i]? = some source ∧ ids[i + 1]? = some target

instance (ids : List String) (source : String) : DecidablePred (IsDeparture ids source) :=
  fun _ => inferInstanceAs (Decidable (_ ∧ _))

instance (ids : List String) (source target : String) :
    DecidablePred (IsPassage ids source target) :=
  fun _ => inferInstanceAs (Decidable (_ ∧ _))

/-- How often a node is left. -/
def departures (ids : List String) (source : String) : ℕ :=
  Nat.count (IsDeparture ids source) ids.length

/-- How often a node is left for another one. -/
def passages (ids : List String) (source target : String) : ℕ :=
  Nat.count (IsPassage ids source target) ids.length

/-- What follows a node at a place, if the node stands there. -/
def followerAt (ids : List String) (source : String) (i : ℕ) : Option String :=
  if ids[i]? = some source then ids[i + 1]? else none

theorem followerAt_eq_some_iff {ids : List String} {source target : String} {i : ℕ} :
    followerAt ids source i = some target ↔ IsPassage ids source target i := by
  by_cases h : ids[i]? = some source <;> simp [followerAt, IsPassage, h]

theorem isSome_followerAt_iff {ids : List String} {source : String} {i : ℕ} :
    (followerAt ids source i).isSome ↔ IsDeparture ids source i := by
  by_cases h : ids[i]? = some source <;> simp [followerAt, IsDeparture, h]

theorem filterMap_getElem?_range (ids : List String) :
    (List.range ids.length).filterMap (fun i => ids[i]?) = ids := by
  induction ids with
  | nil => rfl
  | cons id ids ih =>
      rw [List.length_cons, List.range_succ_eq_map, List.filterMap_cons, List.filterMap_map]
      simpa using ih

theorem followers_eq_filterMap_range (ids : List String) (source : String) :
    followers ids source = (List.range ids.length).filterMap (followerAt ids source) := by
  induction ids with
  | nil => rfl
  | cons id rest ih =>
      have hrest : (List.range rest.length).filterMap (followerAt (id :: rest) source ∘ Nat.succ) =
          followers rest source := by
        rw [ih]
        rfl
      rw [List.length_cons, List.range_succ_eq_map, List.filterMap_cons, List.filterMap_map, hrest]
      cases rest with
      | nil => by_cases h : id = source <;> simp [followerAt, h]
      | cons next rest =>
          rw [followers_cons_cons]
          by_cases h : id = source <;> simp [followerAt, h]

theorem length_followers_eq (ids : List String) (source : String) :
    (followers ids source).length = departures ids source := by
  rw [followers_eq_filterMap_range, length_filterMap_range, departures]
  simp only [isSome_followerAt_iff]

theorem count_followers_eq (ids : List String) (source target : String) :
    (followers ids source).count target = passages ids source target := by
  rw [followers_eq_filterMap_range, count_filterMap_range, passages]
  simp only [followerAt_eq_some_iff]

/-! ## Transitions by place -/

theorem exists_isPassage_iff {ids : List String} {source target : String} :
    (∃ i, IsPassage ids source target i) ↔ target ∈ followers ids source := by
  simp only [followers_eq_filterMap_range, List.mem_filterMap, List.mem_range,
    followerAt_eq_some_iff]
  exact ⟨fun ⟨i, hi⟩ => ⟨i, (List.getElem?_eq_some_iff.mp hi.1).1, hi⟩, fun ⟨i, _, hi⟩ => ⟨i, hi⟩⟩

theorem pairwise_eraseDups_ids (ids : List String) :
    ids.eraseDups.Pairwise fun id id' => ComesFirst (IsVisit ids id) (IsVisit ids id') := by
  have hvisit : ∀ id, (fun i => i < ids.length ∧ ids[i]? = some id) = IsVisit ids id := by
    intro id
    funext i
    exact propext (and_iff_right_of_imp fun h => (List.getElem?_eq_some_iff.mp h).1)
  have horder := pairwise_eraseDups_filterMap_range (fun i => ids[i]?) ids.length
  simpa only [filterMap_getElem?_range, hvisit] using horder

theorem pairwise_eraseDups_followers (ids : List String) (source : String) :
    (followers ids source).eraseDups.Pairwise fun target target' =>
      ComesFirst (IsPassage ids source target) (IsPassage ids source target') := by
  have hpassage : ∀ target, (fun i => i < ids.length ∧ followerAt ids source i = some target) =
      IsPassage ids source target := by
    intro target
    funext i
    rw [followerAt_eq_some_iff]
    exact propext (and_iff_right_of_imp fun h => (List.getElem?_eq_some_iff.mp h.1).1)
  have horder := pairwise_eraseDups_filterMap_range (followerAt ids source) ids.length
  simpa only [← followers_eq_filterMap_range, hpassage] using horder

theorem map_target_leaving (ids : List String) (source : String) :
    (leaving ids source).map (·.target) = (followers ids source).eraseDups := by
  have htarget : (leaving ids source).map (·.target) =
      ((leaving ids source).map ends).map Prod.snd := by
    rw [List.map_map]
    rfl
  rw [htarget, map_ends_leaving, List.map_map]
  exact List.map_id _

theorem followers_eq_nil_iff {ids : List String} {source : String} :
    followers ids source = [] ↔ ∀ i, IsVisit ids source i → i + 1 = ids.length := by
  rw [List.eq_nil_iff_forall_not_mem]
  simp only [← exists_isPassage_iff, not_exists]
  constructor
  · intro h i hi
    obtain ⟨hlt, -⟩ := List.getElem?_eq_some_iff.mp hi
    by_contra hlast
    have hnext : i + 1 < ids.length := by omega
    exact h ids[i + 1] i ⟨hi, List.getElem?_eq_getElem hnext⟩
  · intro h target i ⟨hi, hnext⟩
    obtain ⟨hlt, -⟩ := List.getElem?_eq_some_iff.mp hnext
    exact hlt.ne (h i hi)

/-- The transition was seen so many times of so many, and has the share of them for a
probability. -/
structure HasShare (t : Transition) (count total : ℕ) : Prop where
  count_eq : t.count = count
  probability_eq : t.probability = .real (.ofRatio false count total)
  pos : 0 < count
  le : count ≤ total

theorem hasShare_of_mem_leaving {ids : List String} {source : String} {t : Transition}
    (h : t ∈ leaving ids source) :
    HasShare t (passages ids source t.target) (departures ids source) := by
  obtain ⟨hcount, hfollowed, hprobability⟩ := shares_of_mem_leaving h
  rw [source_eq_of_mem_leaving h] at hcount hfollowed hprobability
  rw [← count_followers_eq, ← length_followers_eq]
  exact ⟨hcount, hprobability, List.count_pos_iff.mpr hfollowed, List.count_le_length⟩

theorem HasShare.exists_isNearest {t : Transition} {count total : ℕ} (h : HasShare t count total) :
    ∃ share, t.probability = .real share ∧ share.IsNearest (t.count / total) := by
  refine ⟨_, h.probability_eq, ?_⟩
  rw [h.count_eq, Int.cast_natCast]
  exact Numeric.Binary64.isNearest_share (h.pos.trans_le h.le) h.le

theorem get?_ofVisits_of_mem {ids : List String} {id : String} (h : id ∈ ids) :
    (ofVisits ids).get? id = some (leaving ids id) := by
  rw [get?_ofVisits, if_pos h]

theorem eq_leaving_of_get? {ids : List String} {id : String} {ts : List Transition}
    (h : (ofVisits ids).get? id = some ts) : leaving ids id = ts := by
  rw [get?_ofVisits] at h
  split at h
  · exact Option.some.inj h
  · cases h

/-- What the places of an itinerary tell of a node is what its transitions hold: one transition for
each node that ever comes next, with the number of times and the share of them. -/
structure Tabulates (ids : List String) (id : String) (ts : List Transition) : Prop where
  exists_iff : ∀ target, (∃ t ∈ ts, t.target = target) ↔ ∃ i, IsPassage ids id target i
  one : ∀ target, (∃ i, IsPassage ids id target i) → ∃ t, ts.filter (·.target = target) = [t]
  source : ∀ t ∈ ts, t.source = id
  count : ∀ t ∈ ts, t.count = passages ids id t.target
  probability : ∀ t ∈ ts, ∃ share, t.probability = .real share ∧
    share.IsNearest (t.count / departures ids id)
  order : ts.Pairwise fun t t' =>
    ComesFirst (IsPassage ids id t.target) (IsPassage ids id t'.target)
  eq_nil_iff : ts = [] ↔ ∀ i, IsVisit ids id i → i + 1 = ids.length

theorem tabulates_leaving (ids : List String) (id : String) :
    Tabulates ids id (leaving ids id) := by
  have htargets := map_target_leaving ids id
  have hmem : ∀ target, (∃ t ∈ leaving ids id, t.target = target) ↔
      ∃ i, IsPassage ids id target i := by
    intro target
    rw [exists_isPassage_iff, ← List.mem_eraseDups, ← htargets, List.mem_map]
  constructor
  · exact hmem
  · intro target hpassage
    have hcount : ((leaving ids id).map (·.target)).count target = 1 := by
      rw [htargets, (nodup_eraseDups _).count, if_pos]
      rwa [List.mem_eraseDups, ← exists_isPassage_iff]
    rw [← List.length_eq_one_iff, ← hcount, List.count, List.countP_map,
      List.countP_eq_length_filter]
    rfl
  · exact fun t => source_eq_of_mem_leaving
  · exact fun t ht => (hasShare_of_mem_leaving ht).count_eq
  · exact fun t ht => (hasShare_of_mem_leaving ht).exists_isNearest
  · have horder := pairwise_eraseDups_followers ids id
    rwa [← htargets, List.pairwise_map] at horder
  · rw [← followers_eq_nil_iff, ← List.map_eq_nil_iff (f := (·.target)), htargets]
    simp only [List.eq_nil_iff_forall_not_mem, List.mem_eraseDups]

/-- Every node of an itinerary has one entry, in the order of the first visits, and the entry holds
what the places of the itinerary tell of the node. -/
theorem ofVisits_tabulates (rs : List Routine) :
    let ids := rs.map (·.id)
    (ofVisits ids).keys.Nodup ∧
    (ofVisits ids).keys.Pairwise (fun id id' => ComesFirst (IsVisit ids id) (IsVisit ids id')) ∧
    (∀ id, id ∈ (ofVisits ids).keys ↔ ∃ i, IsVisit ids id i) ∧
    ∀ id i, IsVisit ids id i → ∃ ts, (ofVisits ids).get? id = some ts ∧ Tabulates ids id ts := by
  intro ids
  have hmem : ∀ id, id ∈ ids ↔ ∃ i, IsVisit ids id i := fun id => List.mem_iff_getElem?
  rw [keys_ofVisits]
  refine ⟨nodup_eraseDups ids, pairwise_eraseDups_ids ids, ?_, ?_⟩
  · intro id
    rw [List.mem_eraseDups, hmem]
  · intro id i hi
    exact ⟨leaving ids id, get?_ofVisits_of_mem ((hmem id).mpr ⟨i, hi⟩), tabulates_leaving ids id⟩

/-- Two routines share an id, so that the node follows itself. -/
theorem ofVisits_tabulates_shared :
    let rs : List Routine := [⟨"1", "read", none, none⟩, ⟨"1", "write", none, none⟩,
      ⟨"2", "read", none, none⟩, ⟨"1", "read", none, none⟩]
    IsVisit (rs.map (·.id)) "1" 0 ∧ ∃ ts, (ofVisits (rs.map (·.id))).get? "1" = some ts ∧
      Tabulates (rs.map (·.id)) "1" ts ∧ ∃ t, ts.filter (·.target = "1") = [t] ∧
        t.count = 1 ∧ ∃ share, t.probability = .real share ∧ share.IsNearest (1 / 2) := by
  intro rs
  obtain ⟨ts, hts, htabulates⟩ := (ofVisits_tabulates rs).2.2.2 "1" 0 rfl
  obtain ⟨t, ht⟩ := htabulates.one "1" ⟨0, rfl, rfl⟩
  obtain ⟨hmem, htarget⟩ := List.mem_filter.mp (ht.symm ▸ List.mem_singleton_self t)
  have hpassages : passages (rs.map (·.id)) "1" "1" = 1 := by decide
  have hdepartures : departures (rs.map (·.id)) "1" = 2 := by decide
  have hcount := htabulates.count t hmem
  obtain ⟨share, hshare, hnearest⟩ := htabulates.probability t hmem
  rw [of_decide_eq_true htarget, hpassages] at hcount
  rw [hcount, hdepartures, Nat.cast_one, Int.cast_one, Nat.cast_ofNat] at hnearest
  exact ⟨rfl, ts, hts, htabulates, t, ht, hcount, share, hshare, hnearest⟩

end Transition

end VisitGraph
