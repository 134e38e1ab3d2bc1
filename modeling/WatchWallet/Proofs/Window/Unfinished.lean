import WatchWallet.Proofs.Window.Packed

/-!
# Window — Unfinished

The list of the heights that are not complete.  The number of the heights is taken in 32 bits, where it is
right for every window but the one of all heights (`PackedTracker.number_ofBounds`): there it is zero, and
nothing is listed.  So the list is right in every other window, and in this one just when every height is
complete (`PackedTracker.lists_iff`).
-/

namespace WatchWallet

namespace PackedTracker

open Tracker (Call)

/-! ### The window -/

theorem lo_foldl_exchange (hs : List Nat) (next? : UInt64 → Option UInt64) (t : PackedTracker) :
    (hs.foldl (fun t h => t.exchange (.ofNat h) next?) t).lo = t.lo ∧
      (hs.foldl (fun t h => t.exchange (.ofNat h) next?) t).words.size = t.words.size := by
  induction hs generalizing t with
  | nil => exact ⟨rfl, rfl⟩
  | cons h hs ih => simpa using ih (t.exchange (.ofNat h) next?)

/-- The heights that a tracker is about stay the same. -/
theorem bounds_after (t : PackedTracker) (calls : List Call) :
    (t.after calls).lo = t.lo ∧ (t.after calls).words.size = t.words.size := by
  induction calls generalizing t with
  | nil => exact ⟨rfl, rfl⟩
  | cons c calls ih =>
      obtain ⟨hlo, hsize⟩ := ih (t.perform c)
      have hperform : (t.perform c).lo = t.lo ∧ (t.perform c).words.size = t.words.size := by
        cases c with
        | register lo hi => exact lo_foldl_exchange ..
        | report k => exact ⟨lo_exchange .., size_exchange ..⟩
        | settle k => exact ⟨lo_exchange .., size_exchange ..⟩
      exact ⟨hlo.trans hperform.1, hsize.trans hperform.2⟩

theorem bounds_ofBounds {lo hi : UInt32} (hle : lo ≤ hi) (calls : List Call) :
    ((ofBounds lo hi).after calls).lo = lo ∧
      ((ofBounds lo hi).after calls).words.size = hi.toNat - lo.toNat + 1 := by
  obtain ⟨hlo, hsize⟩ := bounds_after (ofBounds lo hi) calls
  refine ⟨hlo, hsize.trans ?_⟩
  rw [ofBounds, Array.size_replicate, if_neg (UInt32.not_lt.2 hle), UInt32.toNat_sub_of_le _ _ hle]

/-- A tracker lists the heights from `lo` to `hi` that are not complete: in ascending order, and no
other height. -/
structure Lists (t : PackedTracker) (lo hi : UInt32) : Prop where
  ascending : t.unfinalized.Pairwise (· < ·)
  mem_iff : ∀ h, h ∈ t.unfinalized ↔ lo ≤ h ∧ h ≤ hi ∧ t.isComplete h = false

theorem isComplete_eq (t : PackedTracker) (h : UInt32) :
    t.isComplete h = t.unpack.isComplete h.toNat := by
  rw [isComplete, state?_eq, Tracker.isComplete]

/-- The number of heights, as it is taken. -/
theorem number_ofBounds {lo hi : UInt32} (hle : lo ≤ hi) (calls : List Call) :
    ((ofBounds lo hi).after calls).words.size.toUInt32.toNat =
      if lo = 0 ∧ hi = 0xFFFFFFFF then 0 else hi.toNat - lo.toNat + 1 := by
  have hlt := hi.toNat_lt
  rw [(bounds_ofBounds hle calls).2, Nat.toUInt32, UInt32.toNat_ofNat']
  split
  · rename_i hwhole
    obtain ⟨rfl, rfl⟩ := hwhole
    rfl
  · rename_i hpart
    refine Nat.mod_eq_of_lt ?_
    simp only [← UInt32.toNat_inj, UInt32.reduceToNat] at hpart
    omega

/-- The heights of a window, one after the other, do not go beyond 32 bits. -/
theorem toNat_add_offset {lo hi : UInt32} (hle : lo ≤ hi) {i : Nat} (hi' : i < hi.toNat - lo.toNat + 1) :
    (lo + .ofNat i).toNat = lo.toNat + i := by
  have hlt := hi.toNat_lt
  rw [UInt32.le_iff_toNat_le] at hle
  rw [UInt32.toNat_add, UInt32.toNat_ofNat', Nat.mod_eq_of_lt (a := i) (by omega), Nat.mod_eq_of_lt]
  omega

/-- A window of fewer than all heights is listed. -/
theorem lists_of_part {lo hi : UInt32} (hle : lo ≤ hi) (calls : List Call)
    (hpart : ¬ (lo = 0 ∧ hi = 0xFFFFFFFF)) : ((ofBounds lo hi).after calls).Lists lo hi := by
  obtain ⟨hlo, -⟩ := bounds_ofBounds hle calls
  have hnumber := number_ofBounds hle calls
  rw [if_neg hpart] at hnumber
  generalize (ofBounds lo hi).after calls = t at hlo hnumber ⊢
  subst hlo
  constructor
  · rw [unfinalized, hnumber]
    refine List.Pairwise.filter _ (List.pairwise_map.2 ?_)
    refine List.pairwise_lt_range.imp_of_mem fun hi hj hlt => ?_
    rw [UInt32.lt_iff_toNat_lt, toNat_add_offset hle (List.mem_range.1 hi),
      toNat_add_offset hle (List.mem_range.1 hj)]
    omega
  · intro h
    simp only [unfinalized, hnumber, List.mem_filter, List.mem_map, List.mem_range,
      Bool.not_eq_true', ← and_assoc]
    refine and_congr_left fun _ => ⟨?_, fun ⟨hlo, hhi⟩ => ?_⟩
    · rintro ⟨i, hi', rfl⟩
      rw [UInt32.le_iff_toNat_le, UInt32.le_iff_toNat_le, toNat_add_offset hle hi']
      rw [UInt32.le_iff_toNat_le] at hle
      omega
    · rw [UInt32.le_iff_toNat_le] at hlo hhi
      refine ⟨h.toNat - t.lo.toNat, by omega, UInt32.toNat_inj.1 ?_⟩
      rw [toNat_add_offset hle (by omega)]
      omega

/-- Of all heights, none is listed. -/
theorem unfinalized_of_whole (calls : List Call) :
    ((ofBounds 0 0xFFFFFFFF).after calls).unfinalized = [] := by
  rw [unfinalized, number_ofBounds (by decide) calls, if_pos ⟨rfl, rfl⟩]
  rfl

/-- A tracker that counts without bound lists the same heights. -/
theorem unfinalized_unpack {lo hi : UInt32} (hle : lo ≤ hi) (calls : List Call) :
    ((ofBounds lo hi).after calls).unpack.unfinalized =
      ((ofBounds lo hi).after calls).unfinalized.map UInt32.toNat := by
  obtain ⟨hlo, hsize⟩ := bounds_ofBounds hle calls
  generalize (ofBounds lo hi).after calls = t at hlo hsize ⊢
  subst hlo
  have hnumber : t.unpack.states.size % UInt32.size = t.words.size.toUInt32.toNat := by
    rw [unpack, Array.size_map, Nat.toUInt32, UInt32.toNat_ofNat']
  have hoffset : ∀ i ∈ List.range t.words.size.toUInt32.toNat,
      (t.lo + .ofNat i).toNat = t.lo.toNat + i := by
    intro i hi'
    refine toNat_add_offset hle (Nat.lt_of_lt_of_le (List.mem_range.1 hi') ?_)
    rw [← hsize, Nat.toUInt32, UInt32.toNat_ofNat']
    exact Nat.mod_le ..
  rw [Tracker.unfinalized, unfinalized, hnumber, List.range'_eq_map_range, List.filter_map,
    List.filter_map, List.map_map]
  have hfilter : ∀ i ∈ List.range t.words.size.toUInt32.toNat,
      (!t.unpack.isComplete (t.lo.toNat + i)) = !t.isComplete (t.lo + .ofNat i) := by
    intro i hi'
    rw [isComplete_eq, hoffset i hi']
  rw [List.filter_congr (p := _ ∘ _) hfilter]
  exact List.map_congr_left fun i hi' => (hoffset i (List.mem_filter.1 hi').1).symm

/-- **All heights of a window that are not complete are listed, unless the window holds every height.**
The number of all heights is zero in 32 bits, and then none is listed.  A list of the incomplete heights
is right, and it is empty just when every height is complete, in every other window, and in this one
when every height is complete; a tracker that counts without bound lists the same. -/
theorem lists_iff {lo hi : UInt32} (hle : lo ≤ hi) (calls : List Call) :
    let t := (ofBounds lo hi).after calls
    let complete := ∀ h, lo ≤ h → h ≤ hi → t.isComplete h = true
    (t.Lists lo hi ↔ (lo = 0 ∧ hi = 0xFFFFFFFF → complete)) ∧
    ((t.unfinalized = [] ↔ complete) ↔ (lo = 0 ∧ hi = 0xFFFFFFFF → complete)) ∧
    (lo = 0 ∧ hi = 0xFFFFFFFF → t.unfinalized = []) ∧
    t.unpack.unfinalized = t.unfinalized.map UInt32.toNat := by
  intro t complete
  have hempty : t.Lists lo hi → (t.unfinalized = [] ↔ complete) := by
    intro hlists
    simp only [List.eq_nil_iff_forall_not_mem, hlists.mem_iff, not_and, Bool.not_eq_false, complete]
  by_cases hwhole : lo = 0 ∧ hi = 0xFFFFFFFF
  · have hnil : t.unfinalized = [] := by
      obtain ⟨rfl, rfl⟩ := hwhole
      exact unfinalized_of_whole calls
    refine ⟨⟨fun hlists _ => (hempty hlists).1 hnil, fun hall => ⟨by simp [hnil], fun h => ?_⟩⟩,
      ⟨fun hiff _ => hiff.1 hnil, fun hall => iff_of_true hnil (hall hwhole)⟩, fun _ => hnil,
      unfinalized_unpack hle calls⟩
    rw [hnil]
    refine iff_of_false List.not_mem_nil fun ⟨hlo, hhi, hnot⟩ => ?_
    rw [hall hwhole h hlo hhi] at hnot
    cases hnot
  · have hlists := lists_of_part hle calls hwhole
    exact ⟨iff_of_true hlists fun h => absurd h hwhole,
      iff_of_true (hempty hlists) fun h => absurd h hwhole, fun h => absurd h hwhole,
      unfinalized_unpack hle calls⟩

/-- Of all heights only the first one is complete, and none is listed. -/
theorem lists_iff_allHeights :
    let t := (ofBounds 0 0xFFFFFFFF).after [.register 0 0, .report 0]
    t.isComplete 0 = true ∧ t.isComplete 1 = false ∧ t.unfinalized = [] ∧ ¬ t.Lists 0 0xFFFFFFFF := by
  intro t
  have hstate : ∀ h, t.state? h = ((Tracker.ofBounds 0 0xFFFFFFFF).after
      [.register 0 0, .report 0]).state? h.toNat := by
    intro h
    rw [state?_eq, unpack_after 0 0xFFFFFFFF (by decide)]
    rfl
  simp only [Tracker.after, List.foldl_cons, List.foldl_nil, Tracker.state?_perform,
    Tracker.state?_ofBounds] at hstate
  have hfirst : t.isComplete 0 = true := by
    rw [isComplete, hstate]
    rfl
  have hsecond : t.isComplete 1 = false := by
    rw [isComplete, hstate]
    rfl
  obtain ⟨hlists, -, hnil, -⟩ :=
    lists_iff (show (0 : UInt32) ≤ 0xFFFFFFFF by decide) [.register 0 0, .report 0]
  refine ⟨hfirst, hsecond, hnil ⟨rfl, rfl⟩, fun h => ?_⟩
  have hcomplete := hlists.1 h ⟨rfl, rfl⟩ 1 (by decide) (by decide)
  exact Bool.false_ne_true (hsecond.symm.trans hcomplete)

end PackedTracker
end WatchWallet
