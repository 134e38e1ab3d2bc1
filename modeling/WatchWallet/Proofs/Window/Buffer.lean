import Mathlib.Data.List.DropRight
import Mathlib.Data.List.Induction
import WatchWallet.Proofs.Window.Gathering

/-!
# Window — Buffer

The buckets as a map from heights to lists.  What a call makes of the list of a height is the same for the
buckets (`Buckets.get_perform`) and for a list that is told from the calls alone: of the transactions that
came to the height since it was emptied last, the first of each hash (`Buckets.firstArrivals_concat`).  So
the two agree after any calls, and no transaction that was accepted is lost or let out twice
(`Buckets.holds_firstArrivals`).
-/

namespace WatchWallet

namespace Buckets

/-! ### Calls -/

/-- A call on the buckets. -/
inductive Call where
  | add (tx : Transaction)
  | get (height : Nat)
  | take (height : Nat)
  | remove (height : Nat)

/-- The answer to a call. -/
inductive Reply where
  | added (accepted : Bool)
  | held (txs : List Transaction)
  | done

/-- The answer to a call, and the buckets after it. -/
def perform (b : Buckets) : Call → Reply × Buckets
  | .add tx => (.added (b.accepts tx), b.add tx)
  | .get height => (.held (b.get height), b)
  | .take height => (.held (b.get height), b.remove height)
  | .remove height => (.done, b.remove height)

/-- The buckets after several calls. -/
def after (b : Buckets) (calls : List Call) : Buckets :=
  calls.foldl (fun b c => (b.perform c).2) b

namespace Call

/-- The transaction that a call brings to a height. -/
def arrival? (h : Nat) : Call → Option Transaction
  | add tx => if tx.height? = some h then some tx else none
  | get _ | take _ | remove _ => none

/-- Whether a call empties the bucket of a height. -/
def empties (h : Nat) : Call → Bool
  | take k | remove k => h = k
  | add _ | get _ => false

/-- What a call makes of the list of a height. -/
def act (h : Nat) (held : List Transaction) : Call → List Transaction
  | add tx => if tx.height? = some h ∧ held.any (·.hash == tx.hash) = false then held ++ [tx] else held
  | get _ => held
  | take k | remove k => if h = k then [] else held

end Call

/-- The transactions that came to a height since it was emptied last, in the order of arrival. -/
def arrivals (calls : List Call) (h : Nat) : List Transaction :=
  (calls.rtakeWhile fun c => !c.empties h).filterMap (Call.arrival? h)

/-- Of these, the first of each hash. -/
def firstArrivals (calls : List Call) (h : Nat) : List Transaction :=
  (arrivals calls h).eraseDupsBy fun new old => old.hash == new.hash

/-- The transaction that a call is told is accepted at a height. -/
def Call.accepted (b : Buckets) (h : Nat) (c : Call) : List Transaction :=
  match (b.perform c).1 with
  | .added true => (c.arrival? h).toList
  | .added false | .held _ | .done => []

/-- The transactions that a call lets out of the bucket of a height. -/
def Call.released (b : Buckets) (h : Nat) (c : Call) : List Transaction :=
  if c.empties h then b.get h else []

/-- What several calls are told is accepted at a height, in order. -/
def accepted (h : Nat) : Buckets → List Call → List Transaction
  | _, [] => []
  | b, c :: calls => c.accepted b h ++ accepted h (b.perform c).2 calls

/-- What several calls let out of the bucket of a height, in order. -/
def released (h : Nat) : Buckets → List Call → List Transaction
  | _, [] => []
  | b, c :: calls => c.released b h ++ released h (b.perform c).2 calls

variable {b : Buckets} {calls : List Call} {c : Call} {tx : Transaction} {h : Nat}

/-! ### One call -/

theorem accepts_of_height? (b : Buckets) (hh : tx.height? = some h) :
    b.accepts tx = true ↔ (b.get h).any (·.hash == tx.hash) = false := by
  rw [accepts, hh, Option.any_some, Bool.not_eq_true']

theorem get_perform (b : Buckets) (c : Call) (h : Nat) :
    (b.perform c).2.get h = c.act h (b.get h) := by
  cases c with
  | add tx =>
      exact (get_add b tx h).trans
        (if_congr (and_congr_right fun hh => accepts_of_height? b hh) rfl rfl)
  | get k => rfl
  | take k | remove k => exact get_remove b k h

/-- A transaction is accepted just if it extends the list of a height. -/
theorem accepts_iff (b : Buckets) (tx : Transaction) :
    b.accepts tx = true ↔ ∃ h, (Call.add tx).act h (b.get h) = b.get h ++ [tx] := by
  constructor
  · intro hacc
    cases hh : tx.height? with
    | none =>
        rw [accepts, hh] at hacc
        cases hacc
    | some h => exact ⟨h, if_pos ⟨hh, (accepts_of_height? b hh).1 hacc⟩⟩
  · rintro ⟨h, hact⟩
    rw [Call.act] at hact
    split at hact
    · rename_i hnew
      exact (accepts_of_height? b hnew.1).2 hnew.2
    · exact absurd hact (by simp)

/-- A transaction that is not accepted changes nothing. -/
theorem add_of_not_accepts (hnot : b.accepts tx = false) : b.add tx = b := by
  unfold add
  split
  · rfl
  · rw [hnot, if_neg Bool.false_ne_true]

/-- A call changes the bucket of a height only if it brings a transaction there or empties it. -/
theorem byHeight_perform (b : Buckets) (harrival : c.arrival? h = none) (hempties : c.empties h = false) :
    (b.perform c).2.byHeight[h]? = b.byHeight[h]? := by
  cases c with
  | add tx =>
      have hother : tx.height? ≠ some h := fun hh => by simp [Call.arrival?, hh] at harrival
      dsimp only [perform, add]
      split
      · rfl
      · rename_i k hk
        split
        · rw [Std.ExtTreeMap.getElem?_insert, if_neg]
          rw [Std.compare_eq_iff_eq]
          rintro rfl
          exact hother hk
        · rfl
  | get k => rfl
  | take k | remove k =>
      have hne : h ≠ k := of_decide_eq_false hempties
      simp [perform, remove, Std.ExtTreeMap.getElem?_erase, hne.symm]

theorem Filled.perform (hb : b.Filled) (c : Call) : (b.perform c).2.Filled := by
  cases c with
  | add tx => exact hb.add tx
  | get k => exact hb
  | take k | remove k => exact hb.remove k

/-- What a height holds before a call and what the call adds there, it lets out or holds after it. -/
theorem get_append_accepted_perform (b : Buckets) (c : Call) (h : Nat) :
    b.get h ++ c.accepted b h = c.released b h ++ (b.perform c).2.get h := by
  rw [get_perform]
  cases c with
  | add tx =>
      have hreleased : (Call.add tx).released b h = [] := rfl
      rw [hreleased, List.nil_append, Call.accepted, perform, Call.arrival?, Call.act]
      by_cases hh : tx.height? = some h
      · have hiff := accepts_of_height? b hh
        cases hacc : b.accepts tx with
        | true => simp [hh, hiff.1 hacc]
        | false =>
            have hold : ¬ (b.get h).any (·.hash == tx.hash) = false := fun hnew =>
              Bool.false_ne_true (hacc.symm.trans (hiff.2 hnew))
            simp [hh, hold]
      · simp only [hh, false_and, if_false]
        cases b.accepts tx <;> exact List.append_nil _
  | get k => exact List.append_nil _
  | take k | remove k =>
      by_cases hk : h = k <;> simp [Call.accepted, Call.released, Call.act, Call.empties, perform, hk]

/-! ### The calls alone -/

theorem arrivals_concat (calls : List Call) (c : Call) (h : Nat) :
    arrivals (calls ++ [c]) h =
      if c.empties h then [] else arrivals calls h ++ (c.arrival? h).toList := by
  rw [arrivals, List.rtakeWhile_concat]
  cases hempties : c.empties h with
  | true => rfl
  | false =>
      simp only [Bool.not_false, if_true, List.filterMap_append, Bool.false_eq_true, if_false, arrivals]
      cases harrival : c.arrival? h <;> simp [harrival]

/-- The last of a list stays if nothing before it is the same. -/
theorem eraseDupsBy_concat {α : Type} (same : α → α → Bool) (xs : List α) (x : α) :
    (xs ++ [x]).eraseDupsBy same =
      if (xs.eraseDupsBy same).any (same x) then xs.eraseDupsBy same
      else xs.eraseDupsBy same ++ [x] := by
  have hcons : ∀ y ys kept, List.eraseDupsBy.loop same (y :: ys) kept =
      List.eraseDupsBy.loop same ys (if kept.any (same y) then kept else y :: kept) := by
    intro y ys kept
    rw [List.eraseDupsBy.loop]
    cases kept.any (same y) <;> rfl
  have hloop : ∀ kept, List.eraseDupsBy.loop same (xs ++ [x]) kept =
      if (List.eraseDupsBy.loop same xs kept).any (same x) then List.eraseDupsBy.loop same xs kept
      else List.eraseDupsBy.loop same xs kept ++ [x] := by
    induction xs with
    | nil =>
        intro kept
        simp only [List.nil_append, List.eraseDupsBy.loop, List.any_reverse]
        cases kept.any (same x) <;> simp
    | cons y xs ih =>
        intro kept
        rw [List.cons_append, hcons, hcons]
        exact ih _
  exact hloop []

theorem firstArrivals_concat (calls : List Call) (c : Call) (h : Nat) :
    firstArrivals (calls ++ [c]) h = c.act h (firstArrivals calls h) := by
  unfold firstArrivals
  rw [arrivals_concat]
  cases c with
  | add tx =>
      by_cases hh : tx.height? = some h
      · simp only [Call.empties, Call.arrival?, Call.act, hh, if_true, Option.toList_some, true_and,
          Bool.false_eq_true, if_false, eraseDupsBy_concat]
        cases (List.eraseDupsBy _ (arrivals calls h)).any _ <;> rfl
      · simp [Call.empties, Call.arrival?, Call.act, hh]
  | get k => simp [Call.empties, Call.arrival?, Call.act]
  | take k | remove k =>
      by_cases hk : h = k
      · subst hk
        simp [Call.empties, Call.act]
      · simp [Call.empties, Call.arrival?, Call.act, hk]

/-! ### Several calls -/

theorem after_concat (b : Buckets) (calls : List Call) (c : Call) :
    b.after (calls ++ [c]) = ((b.after calls).perform c).2 :=
  List.foldl_append

theorem get_after (calls : List Call) (h : Nat) :
    (empty.after calls).get h = firstArrivals calls h := by
  induction calls using List.reverseRecOn with
  | nil => exact get_empty h
  | append_singleton calls c ih => rw [after_concat, get_perform, ih, firstArrivals_concat]

theorem filled_after (calls : List Call) : (empty.after calls).Filled :=
  List.foldlRecOn _ _ filled_empty fun _ hb c _ => hb.perform c

/-- What a height held, and what was accepted there, has left it or is held there now. -/
theorem get_append_accepted (b : Buckets) (calls : List Call) (h : Nat) :
    b.get h ++ accepted h b calls = released h b calls ++ (b.after calls).get h := by
  induction calls generalizing b with
  | nil => exact List.append_nil _
  | cons c calls ih =>
      calc b.get h ++ (c.accepted b h ++ accepted h (b.perform c).2 calls)
        _ = c.released b h ++ ((b.perform c).2.get h ++ accepted h (b.perform c).2 calls) := by
            rw [← List.append_assoc, get_append_accepted_perform, List.append_assoc]
        _ = c.released b h ++ (released h (b.perform c).2 calls ++ (b.after (c :: calls)).get h) := by
            rw [ih]
            rfl
        _ = released h b (c :: calls) ++ (b.after (c :: calls)).get h :=
            (List.append_assoc ..).symm

/-- The heights with a bucket. -/
theorem Filled.heights (hb : b.Filled) :
    ∃ heights : List Nat, heights.Nodup ∧ (∀ h, h ∈ heights ↔ b.get h ≠ []) ∧
      b.size = heights.length := by
  refine ⟨b.byHeight.keys, Std.ExtTreeMap.nodup_keys, fun h => ?_, Std.ExtTreeMap.length_keys.symm⟩
  rw [Std.ExtTreeMap.mem_keys, get, Std.ExtTreeMap.mem_iff_isSome_getElem?]
  cases hbucket : b.byHeight[h]? with
  | none => simp
  | some txs =>
      refine iff_of_true rfl ?_
      rintro rfl
      exact hb h hbucket

/-- Without a transaction there is no bucket. -/
theorem Filled.byHeight_eq (hb : b.Filled) (h : Nat) :
    b.byHeight[h]? = if b.get h = [] then none else some (b.get h) := by
  rw [get]
  cases hbucket : b.byHeight[h]? with
  | none => rfl
  | some txs =>
      rw [Option.getD_some, if_neg]
      rintro rfl
      exact hb h hbucket

/-- **The buckets hold, of the transactions that came to a height since it was emptied last, the first of
each hash.**  After any calls there is a bucket just for the heights with such transactions, and their
number is the size; a call that adds is told whether its transaction extends the list, and one that reads
or takes gets the list.  What was accepted at a height is what left it and what is held there now, in this
order.  In any buckets, a transaction that is not accepted, or not confirmed, changes nothing, and a call
changes the bucket of a height only if it brings a transaction there or empties it. -/
theorem holds_firstArrivals (calls : List Call) :
    let b := empty.after calls
    (∀ h, b.byHeight[h]? =
      if firstArrivals calls h = [] then none else some (firstArrivals calls h)) ∧
    (∃ heights : List Nat, heights.Nodup ∧ (∀ h, h ∈ heights ↔ firstArrivals calls h ≠ []) ∧
      b.size = heights.length) ∧
    (∀ tx, (b.perform (.add tx)).1 = .added true ↔
      ∃ h, firstArrivals (calls ++ [.add tx]) h = firstArrivals calls h ++ [tx]) ∧
    (∀ h, (b.perform (.get h)).1 = .held (firstArrivals calls h) ∧
      (b.perform (.take h)).1 = .held (firstArrivals calls h)) ∧
    (∀ h, accepted h empty calls = released h empty calls ++ firstArrivals calls h) ∧
    ∀ b' : Buckets,
      (∀ tx, b'.perform (.add tx) = (.added true, b'.add tx) ∨
        b'.perform (.add tx) = (.added false, b')) ∧
      (∀ tx, tx.height? = none → b'.perform (.add tx) = (.added false, b')) ∧
      (∀ h, (b'.perform (.get h)).2 = b') ∧
      (∀ c h, c.arrival? h = none → c.empties h = false →
        (b'.perform c).2.byHeight[h]? = b'.byHeight[h]?) := by
  intro b
  have hget : ∀ h, b.get h = firstArrivals calls h := get_after calls
  have hfilled : b.Filled := filled_after calls
  refine ⟨fun h => ?_, ?_, fun tx => ?_, fun h => ?_, fun h => ?_, fun b' => ⟨fun tx => ?_, fun tx hh => ?_,
    fun h => rfl, fun c h => byHeight_perform b'⟩⟩
  · rw [hfilled.byHeight_eq, hget]
  · simpa only [hget] using hfilled.heights
  · simp only [firstArrivals_concat, ← hget]
    rw [← accepts_iff, perform, Reply.added.injEq]
  · exact ⟨congrArg _ (hget h), congrArg _ (hget h)⟩
  · rw [← hget]
    exact get_append_accepted empty calls h
  · rw [perform]
    cases hacc : b'.accepts tx with
    | true => exact .inl rfl
    | false => exact .inr (by rw [add_of_not_accepts hacc])
  · have hacc : b'.accepts tx = false := by rw [accepts, hh, Option.any_none]
    rw [perform, add_of_not_accepts hacc, hacc]

end Buckets
end WatchWallet
