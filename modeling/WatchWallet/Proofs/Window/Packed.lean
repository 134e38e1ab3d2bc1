import Mathlib.Data.List.Induction
import WatchWallet.Proofs.Window.Heights
import WatchWallet.Window.Packed

/-!
# Window — Packed

Words and the states that they stand for.  An exchange of a word is a change of its state
(`HeightState.ofWord_registered`, `ofWord_reported`, `ofWord_settled`), with one exception: the largest
count has no successor, since the next word is that of a complete height.  So a tracker of words is a
tracker of states as long as no height is full (`PackedTracker.unpack_after`).  A complete height stays
complete (`PackedTracker.state?_perform_of_isComplete`), and there is nothing outside the window.
-/

namespace WatchWallet

/-! ### Words -/

namespace HeightState

theorem ofWord_of_lt {w : UInt64} (h : w < finalizingWord) : ofWord w = pending w.toNat := by
  have hne : w ≠ finalizingWord := UInt64.ne_of_lt h
  have hne' : w ≠ finalizedWord := UInt64.ne_of_lt (UInt64.lt_trans h (by decide))
  rw [ofWord, if_neg hne', if_neg hne]

/-- A word counts, or it is one of the two largest. -/
theorem word_cases (w : UInt64) : w < finalizingWord ∨ w = finalizingWord ∨ w = finalizedWord := by
  have hlt := w.toNat_lt
  simp only [UInt64.lt_iff_toNat_lt, ← UInt64.toNat_inj, finalizingWord, finalizedWord,
    UInt64.reduceToNat]
  omega

theorem ofWord_eq_pending_iff {w : UInt64} {n : Nat} :
    ofWord w = pending n ↔ w < finalizingWord ∧ w.toNat = n := by
  obtain h | rfl | rfl := word_cases w
  · simp [ofWord_of_lt h, h]
  · simp [ofWord, finalizingWord, finalizedWord]
  · simp [ofWord, finalizingWord, finalizedWord]

theorem ofWord_registered {w : UInt64} (hroom : ofWord w ≠ pending (UInt64.size - 3)) :
    ofWord ((registered? w).getD w) = (ofWord w).register := by
  obtain h | rfl | rfl := word_cases w
  · have hle : ¬ finalizingWord ≤ w := UInt64.not_le.2 h
    have hnext : (w + 1).toNat = w.toNat + 1 ∧ w + 1 < finalizingWord := by
      rw [ofWord_of_lt h, ne_eq, pending.injEq, UInt64.size] at hroom
      simp only [UInt64.lt_iff_toNat_lt, finalizingWord, UInt64.reduceToNat, UInt64.toNat_add] at h ⊢
      omega
    rw [registered?, if_neg hle, Option.getD_some, ofWord_of_lt hnext.2, ofWord_of_lt h, hnext.1]
    rfl
  · rfl
  · rfl

theorem ofWord_reported (w : UInt64) : ofWord ((reported? w).getD w) = (ofWord w).report := by
  obtain h | rfl | rfl := word_cases w
  · rw [ofWord_of_lt h]
    have hne : w ≠ finalizingWord := UInt64.ne_of_lt h
    have hne' : w ≠ finalizedWord := UInt64.ne_of_lt (UInt64.lt_trans h (by decide))
    by_cases h0 : w = 0
    · subst h0; rfl
    by_cases h1 : w = 1
    · subst h1; rfl
    · have hprev : (w - 1).toNat = w.toNat - 1 ∧ w - 1 < finalizingWord ∧ 2 ≤ w.toNat := by
        simp only [UInt64.lt_iff_toNat_lt, finalizingWord, UInt64.reduceToNat, UInt64.toNat_sub,
          ← UInt64.toNat_inj] at h h0 h1 ⊢
        omega
      obtain ⟨n, hn⟩ : ∃ n, w.toNat = n + 2 := ⟨w.toNat - 2, by omega⟩
      rw [reported?, if_neg (by simp [h0, hne, hne']), if_neg h1, Option.getD_some,
        ofWord_of_lt hprev.2.1, hprev.1, hn]
      rfl
  · rfl
  · rfl

theorem ofWord_settled (w : UInt64) : ofWord ((settled? w).getD w) = (ofWord w).settle := by
  obtain h | rfl | rfl := word_cases w
  · rw [settled?, if_neg (UInt64.ne_of_lt h), Option.getD_none, ofWord_of_lt h]
    rfl
  · rfl
  · rfl

/-- The word whose report completes its height. -/
theorem isLast_ofWord (w : UInt64) : (ofWord w).isLast = ((reported? w).isSome && w == 1) := by
  by_cases h1 : w = 1
  · subst h1; rfl
  · rw [beq_eq_false_iff_ne.2 h1, Bool.and_false, Bool.eq_false_iff, ne_eq, isLast_iff,
      ofWord_eq_pending_iff]
    exact fun h => h1 (UInt64.toNat_inj.1 h.2)

end HeightState

/-! ### Words of a window -/

namespace PackedTracker

variable {t : PackedTracker} {h k : UInt32}

theorem state?_eq (t : PackedTracker) (h : UInt32) : t.state? h = t.unpack.state? h.toNat := by
  unfold state? word? unpack Tracker.state?
  by_cases hle : t.lo ≤ h
  · rw [if_pos hle, if_pos (UInt32.le_iff_toNat_le.1 hle), UInt32.toNat_sub_of_le _ _ hle,
      Array.getElem?_map]
  · rw [if_neg hle, if_neg fun hle' => hle (UInt32.le_iff_toNat_le.2 hle')]
    rfl

/-- A height changes only where its word is exchanged. -/
theorem word?_exchange (t : PackedTracker) (k h : UInt32) (next? : UInt64 → Option UInt64) :
    (t.exchange k next?).word? h =
      if h = k then (t.word? h).map fun w => (next? w).getD w else t.word? h := by
  unfold exchange word?
  by_cases hk : t.lo ≤ k
  · simp only [hk, if_true]
    by_cases hh : t.lo ≤ h
    · simp only [hh, if_true, Array.getElem?_modify]
      by_cases he : h = k
      · subst he; simp
      · have hne : (k - t.lo).toNat ≠ (h - t.lo).toNat := by
          rw [UInt32.toNat_sub_of_le _ _ hk, UInt32.toNat_sub_of_le _ _ hh]
          rw [UInt32.le_iff_toNat_le] at hk hh
          rw [← UInt32.toNat_inj] at he
          omega
        simp [he, hne]
    · have : h ≠ k := fun he => hh (he ▸ hk)
      simp [hh, this]
  · simp only [hk, if_false]
    by_cases he : h = k
    · subst he; simp [hk]
    · simp [he]

@[simp] theorem lo_exchange (t : PackedTracker) (k : UInt32) (next? : UInt64 → Option UInt64) :
    (t.exchange k next?).lo = t.lo := by
  dsimp only [exchange]
  split <;> rfl

@[simp] theorem size_exchange (t : PackedTracker) (k : UInt32) (next? : UInt64 → Option UInt64) :
    (t.exchange k next?).words.size = t.words.size := by
  dsimp only [exchange]
  split <;> simp

/-- Exchanging a word updates the state it stands for. -/
theorem unpack_exchange {next? : UInt64 → Option UInt64} {f : HeightState → HeightState}
    (hnext : ∀ w, t.word? k = some w → .ofWord ((next? w).getD w) = f (.ofWord w)) :
    (t.exchange k next?).unpack = t.unpack.update k.toNat f := by
  unfold exchange unpack Tracker.update
  by_cases hk : t.lo ≤ k
  · simp only [hk, UInt32.le_iff_toNat_le.1 hk, if_true, Tracker.mk.injEq, true_and]
    rw [word?, if_pos hk] at hnext
    rw [UInt32.toNat_sub_of_le _ _ hk] at hnext ⊢
    refine Array.ext_getElem? fun i => ?_
    simp only [Array.getElem?_map, Array.getElem?_modify]
    split
    · rename_i hi
      subst hi
      cases hw : t.words[k.toNat - t.lo.toNat]? with
      | none => rfl
      | some w => exact congrArg some (hnext w hw)
    · rfl
  · simp only [hk, mt UInt32.le_iff_toNat_le.2 hk, if_false]

end PackedTracker

/-! ### Calls -/

/-- A call on a tracker. -/
inductive Tracker.Call where
  | register (lo hi : UInt32)
  | report (height : UInt32)
  | settle (height : UInt32)
deriving DecidableEq

namespace Tracker

namespace Call

/-- Whether a batch goes out in the call. -/
def isRegister : Call → Bool
  | register _ _ => true
  | report _ | settle _ => false

/-- Whether the call is about a height. -/
def touches (h : UInt32) : Call → Bool
  | register lo hi => lo ≤ h && h ≤ hi
  | report k | settle k => h = k

@[simp] theorem touches_report (h : UInt32) : (report h).touches h = true := decide_eq_true rfl

@[simp] theorem touches_settle (h : UInt32) : (settle h).touches h = true := decide_eq_true rfl

/-- What the call does to the state of a height that it is about. -/
def act : Call → HeightState → HeightState
  | register _ _ => .register
  | report _ => .report
  | settle _ => .settle

/-- What the call exchanges the word of such a height for, if there is an exchange. -/
def next? : Call → UInt64 → Option UInt64
  | register _ _ => HeightState.registered?
  | report _ => HeightState.reported?
  | settle _ => HeightState.settled?

/-- A call changes a complete state at most from finalizing to finalized. -/
theorem act_of_isComplete {c : Call} {h : UInt32} {s : HeightState} (hs : s.isComplete = true)
    (htouch : c.touches h = true) : c.act s = if c = .settle h then .finalized else s := by
  cases c with
  | register lo hi | report k =>
      rw [if_neg nofun]
      cases s with
      | pending n => cases hs
      | finalizing | finalized => rfl
  | settle k =>
      obtain rfl : h = k := of_decide_eq_true htouch
      rw [if_pos rfl]
      cases s with
      | pending n => cases hs
      | finalizing | finalized => rfl

/-- A height that counts batches did so before the call, and a registration adds one of them. -/
theorem pending_of_act {c : Call} {s : HeightState} {n : Nat} (hact : c.act s = .pending n) :
    ∃ m, s = .pending m ∧ n ≤ m + if c.isRegister = true then 1 else 0 := by
  cases s with
  | pending m =>
      refine ⟨m, rfl, ?_⟩
      cases c with
      | register lo hi =>
          cases hact
          exact Nat.le_refl _
      | report k =>
          obtain _ | _ | m := m <;> cases hact
          · exact Nat.le_refl _
          · exact Nat.le_succ_of_le (Nat.le_refl _)
      | settle k =>
          cases hact
          exact Nat.le_refl _
  | finalizing => cases c <;> cases hact
  | finalized => cases c <;> cases hact

/-- Exchanging a word acts on the state that it stands for, unless a full height is registered. -/
theorem ofWord_next {c : Call} {w : UInt64}
    (hroom : c.isRegister = true → HeightState.ofWord w ≠ .pending (UInt64.size - 3)) :
    HeightState.ofWord ((c.next? w).getD w) = c.act (.ofWord w) := by
  cases c with
  | register _ _ => exact HeightState.ofWord_registered (hroom rfl)
  | report _ => exact HeightState.ofWord_reported w
  | settle _ => exact HeightState.ofWord_settled w

end Call

/-- The tracker after a call. -/
def perform (t : Tracker) : Call → Tracker
  | .register lo hi => t.register lo.toNat hi.toNat
  | .report k => t.report k.toNat
  | .settle k => t.settle k.toNat

/-- The tracker after several calls. -/
def after (t : Tracker) (calls : List Call) : Tracker := calls.foldl perform t

theorem after_concat (t : Tracker) (calls : List Call) (c : Call) :
    t.after (calls ++ [c]) = (t.after calls).perform c :=
  List.foldl_append

theorem state?_perform (t : Tracker) (c : Call) (h : UInt32) :
    (t.perform c).state? h.toNat =
      if c.touches h = true then (t.state? h.toNat).map c.act else t.state? h.toNat := by
  cases c with
  | register lo hi =>
      simp only [perform, state?_register, Call.touches, Call.act, Bool.and_eq_true,
        decide_eq_true_eq, UInt32.le_iff_toNat_le]
  | report k =>
      simp only [perform, state?_report, Call.touches, Call.act, decide_eq_true_eq,
        ← UInt32.toNat_inj]
  | settle k =>
      simp only [perform, state?_settle, Call.touches, Call.act, decide_eq_true_eq,
        ← UInt32.toNat_inj]

/-- No height counts more batches than went out. -/
theorem le_of_pending {lo hi : Nat} {calls : List Call} {h : UInt32} {n : Nat}
    (hn : ((ofBounds lo hi).after calls).state? h.toNat = some (.pending n)) :
    n ≤ calls.countP Call.isRegister := by
  induction calls using List.reverseRecOn generalizing n with
  | nil =>
      rw [after, List.foldl_nil, state?_ofBounds] at hn
      split at hn
      · cases hn
        exact Nat.zero_le _
      · cases hn
  | append_singleton calls c ih =>
      rw [after_concat, state?_perform] at hn
      rw [List.countP_append, List.countP_singleton]
      split at hn
      · obtain ⟨s, hs, hact⟩ := Option.map_eq_some_iff.1 hn
        obtain ⟨m, rfl, hle⟩ := Call.pending_of_act hact
        exact Nat.le_trans hle (Nat.add_le_add_right (ih hs) _)
      · exact Nat.le_add_right_of_le (ih hn)

end Tracker

namespace PackedTracker

open Tracker (Call)

variable {t : PackedTracker} {h k : UInt32}

/-- The tracker after a call. -/
def perform (t : PackedTracker) : Call → PackedTracker
  | .register lo hi => t.register lo hi
  | .report k => (t.report k).2
  | .settle k => t.settle k

/-- The tracker after several calls. -/
def after (t : PackedTracker) (calls : List Call) : PackedTracker := calls.foldl perform t

theorem after_concat (t : PackedTracker) (calls : List Call) (c : Call) :
    t.after (calls ++ [c]) = (t.after calls).perform c :=
  List.foldl_append

/-- A report tells whether the height counts one batch. -/
theorem fst_report (t : PackedTracker) (h : UInt32) : (t.report h).1 = t.unpack.isLast h.toNat := by
  rw [Tracker.isLast, ← state?_eq, report, state?]
  cases t.word? h with
  | none => rfl
  | some w => exact (HeightState.isLast_ofWord w).symm

theorem word?_ofBounds (lo hi h : UInt32) :
    (ofBounds lo hi).word? h = if lo ≤ h ∧ h ≤ hi then some 0 else none := by
  rw [word?, ofBounds]
  by_cases hlo : lo ≤ h
  · rw [if_pos hlo, UInt32.toNat_sub_of_le _ _ hlo, Array.getElem?_replicate]
    refine if_congr ?_ rfl rfl
    simp only [hlo, true_and]
    split
    · rename_i hlt
      rw [UInt32.lt_iff_toNat_lt] at hlt
      rw [UInt32.le_iff_toNat_le] at hlo ⊢
      omega
    · rename_i hle
      rw [UInt32.not_lt] at hle
      rw [UInt32.toNat_sub_of_le _ _ hle]
      rw [UInt32.le_iff_toNat_le] at hlo hle ⊢
      omega
  · rw [if_neg hlo, if_neg fun hin => hlo hin.1]

theorem unpack_ofBounds (lo hi : UInt32) :
    (ofBounds lo hi).unpack = .ofBounds lo.toNat hi.toNat := by
  unfold ofBounds unpack Tracker.ofBounds
  rw [Array.map_replicate]
  congr 2
  split
  · rename_i hlt
    rw [UInt32.lt_iff_toNat_lt] at hlt
    omega
  · rename_i hle
    rw [UInt32.not_lt] at hle
    rw [UInt32.toNat_sub_of_le _ _ hle]
    rw [UInt32.le_iff_toNat_le] at hle
    omega

theorem word?_foldl_exchange (next? : UInt64 → Option UInt64) (n k : Nat) (hk : k + n ≤ UInt32.size)
    (t : PackedTracker) (h : UInt32) :
    ((List.range' k n).foldl (fun t h => t.exchange (.ofNat h) next?) t).word? h =
      if k ≤ h.toNat ∧ h.toNat < k + n then (t.word? h).map fun w => (next? w).getD w
      else t.word? h := by
  induction n generalizing k t with
  | zero => rw [if_neg (by omega)]; rfl
  | succ n ih =>
      have htoNat : (UInt32.ofNat k).toNat = k := UInt32.toNat_ofNat_of_lt' (by omega)
      have heq : h = .ofNat k ↔ h.toNat = k := by rw [← UInt32.toNat_inj, htoNat]
      rw [List.range'_succ, List.foldl_cons, ih (k + 1) (by omega), word?_exchange]
      by_cases he : h.toNat = k
      · rw [if_neg (by omega), if_pos (heq.2 he), if_pos (by omega)]
      · have hiff : (k + 1 ≤ h.toNat ∧ h.toNat < k + 1 + n) ↔ (k ≤ h.toNat ∧ h.toNat < k + (n + 1)) := by
          omega
        rw [if_neg (mt heq.1 he)]
        simp only [hiff]

/-- The heights that a registration is about have 32 bits. -/
theorem add_heights_le (lo hi : UInt32) : lo.toNat + (hi.toNat + 1 - lo.toNat) ≤ UInt32.size := by
  have := hi.toNat_lt
  have := lo.toNat_lt
  simp only [UInt32.size]
  omega

/-- A call changes the words of the heights that it is about, each by itself. -/
theorem word?_perform (t : PackedTracker) (c : Call) (h : UInt32) :
    (t.perform c).word? h =
      if c.touches h = true then (t.word? h).map fun w => (c.next? w).getD w else t.word? h := by
  cases c with
  | register lo hi =>
      have hiff : (lo.toNat ≤ h.toNat ∧ h.toNat < lo.toNat + (hi.toNat + 1 - lo.toNat)) ↔
          lo ≤ h ∧ h ≤ hi := by
        rw [UInt32.le_iff_toNat_le, UInt32.le_iff_toNat_le]
        omega
      refine (word?_foldl_exchange _ _ _ (add_heights_le lo hi) t h).trans ?_
      simp only [hiff, Call.touches, Bool.and_eq_true, decide_eq_true_eq, Call.next?]
  | report k | settle k =>
      refine (word?_exchange ..).trans ?_
      simp only [Call.touches, decide_eq_true_eq, Call.next?]

/-- **A complete height stays complete**, whatever is called: only its block can still come to the
store. -/
theorem state?_perform_of_isComplete {t : PackedTracker} {h : UInt32} (hc : t.isComplete h = true)
    (c : Call) :
    (t.perform c).state? h = if c = .settle h then some .finalized else t.state? h := by
  unfold isComplete state? at hc
  cases hw : t.word? h with
  | none => rw [hw] at hc; cases hc
  | some w =>
      rw [hw, Option.map_some, Option.any_some] at hc
      have hact : Tracker.Call.act c (.ofWord w) = .ofWord ((c.next? w).getD w) := by
        refine (Call.ofWord_next fun _ hfull => ?_).symm
        rw [hfull] at hc
        cases hc
      rw [state?, word?_perform, hw, state?, hw]
      by_cases htouch : c.touches h = true
      · rw [if_pos htouch, Option.map_some, Option.map_some, ← hact,
          Call.act_of_isComplete hc htouch]
        split <;> rfl
      · have hne : c ≠ .settle h := by
          rintro rfl
          exact htouch (decide_eq_true rfl)
        rw [if_neg htouch, if_neg hne]

/-- Without a word to exchange it for, a word stays. -/
theorem exchange_of_next?_eq_none {next? : UInt64 → Option UInt64}
    (hk : ∀ w, t.word? k = some w → next? w = none) : t.exchange k next? = t := by
  dsimp only [exchange]
  split
  · rename_i hle
    simp only [word?, if_pos hle] at hk
    have hsame : t.words.modify (k - t.lo).toNat (fun w => (next? w).getD w) = t.words := by
      refine Array.ext_getElem? fun i => ?_
      rw [Array.getElem?_modify]
      split
      · rename_i hi
        rw [← hi]
        cases hw : t.words[(k - t.lo).toNat]? with
        | none => rfl
        | some w => rw [Option.map_some, hk w hw, Option.getD_none]
      · rfl
    rw [hsame]
  · rfl

/-- A report on a height that counts no batch changes nothing. -/
theorem report_of_pending_zero (hzero : t.state? h = some (.pending 0)) : t.report h = (false, t) := by
  obtain ⟨w, hw, hpending⟩ := Option.map_eq_some_iff.1 hzero
  obtain rfl : w = 0 := UInt64.toNat_inj.1 (HeightState.ofWord_eq_pending_iff.1 hpending).2
  refine Prod.ext ?_ (exchange_of_next?_eq_none fun w hw' => ?_)
  · rw [report, hw]
    rfl
  · obtain rfl : (0 : UInt64) = w := Option.some.inj (hw.symm.trans hw')
    rfl

/-- There are no words outside the window. -/
theorem word?_after_of_eq_none {h : UInt32} (hnone : t.word? h = none) (calls : List Call) :
    (t.after calls).word? h = none := by
  refine List.foldlRecOn (motive := fun t : PackedTracker => t.word? h = none) _ _ hnone
    fun t ht c _ => ?_
  rw [word?_perform, ht]
  split <;> rfl

/-- A call that is about heights outside the window changes nothing. -/
theorem perform_of_outside {c : Call} (hout : ∀ h, c.touches h = true → t.word? h = none) :
    t.perform c = t := by
  cases c with
  | register lo hi =>
      refine List.foldlRecOn (motive := (· = t)) _ _ rfl fun t' ht' h hh => ?_
      obtain ⟨hlo, hhi⟩ := List.mem_range'_1.1 hh
      have htoNat : (UInt32.ofNat h).toNat = h :=
        UInt32.toNat_ofNat_of_lt' (Nat.lt_of_lt_of_le hhi (add_heights_le lo hi))
      have htouch : Call.touches (.ofNat h) (.register lo hi) = true := by
        simp only [Call.touches, Bool.and_eq_true, decide_eq_true_eq, UInt32.le_iff_toNat_le, htoNat]
        omega
      rw [ht']
      exact exchange_of_next?_eq_none fun w hw => nomatch hw.symm.trans (hout _ htouch)
  | report k | settle k =>
      exact exchange_of_next?_eq_none fun w hw => nomatch hw.symm.trans (hout k (by simp))

theorem unpack_foldl_exchange (n k : Nat) (hk : k + n ≤ UInt32.size) (t : PackedTracker)
    (hroom : ∀ h : UInt32, k ≤ h.toNat → t.state? h ≠ some (.pending (UInt64.size - 3))) :
    ((List.range' k n).foldl (fun t h => t.exchange (.ofNat h) HeightState.registered?) t).unpack =
      (List.range' k n).foldl (fun t h => t.update h .register) t.unpack := by
  induction n generalizing k t with
  | zero => rfl
  | succ n ih =>
      have htoNat : (UInt32.ofNat k).toNat = k := UInt32.toNat_ofNat_of_lt' (by omega)
      rw [List.range'_succ, List.foldl_cons, List.foldl_cons, ih (k + 1) (by omega), unpack_exchange,
        htoNat]
      · intro w hw
        refine HeightState.ofWord_registered fun hfull => hroom (.ofNat k) (Nat.le_of_eq htoNat.symm) ?_
        rw [state?, hw, Option.map_some, hfull]
      · intro h hh
        have hne : h ≠ .ofNat k := fun he => by rw [he, htoNat] at hh; omega
        rw [state?, word?_exchange, if_neg hne]
        exact hroom h (by omega)

/-- While no height is full, a call does the same to the words as to the states. -/
theorem unpack_perform {c : Call}
    (hroom : c.isRegister = true → ∀ h, t.state? h ≠ some (.pending (UInt64.size - 3))) :
    (t.perform c).unpack = t.unpack.perform c := by
  cases c with
  | register lo hi =>
      exact unpack_foldl_exchange _ _ (add_heights_le lo hi) t fun h _ => hroom rfl h
  | report k => exact unpack_exchange fun w _ => HeightState.ofWord_reported w
  | settle k => exact unpack_exchange fun w _ => HeightState.ofWord_settled w

/-- **The words of a tracker are the states of one that counts without bound**, until as many batches
have gone out as a word can count. -/
theorem unpack_after (lo hi : UInt32) {calls : List Call}
    (hfew : calls.countP Call.isRegister < UInt64.size - 2) :
    ((ofBounds lo hi).after calls).unpack = (Tracker.ofBounds lo.toNat hi.toNat).after calls := by
  induction calls using List.reverseRecOn with
  | nil => exact unpack_ofBounds lo hi
  | append_singleton calls c ih =>
      rw [List.countP_append, List.countP_singleton] at hfew
      have hbefore := ih (by omega)
      rw [after_concat, Tracker.after_concat, unpack_perform, hbefore]
      intro hregister h hfull
      rw [state?_eq, hbefore] at hfull
      have := Tracker.le_of_pending hfull
      rw [if_pos hregister] at hfew
      omega

end PackedTracker
end WatchWallet
