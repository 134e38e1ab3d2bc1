import WatchWallet.Proofs.Window.Discovery
import WatchWallet.Proofs.Window.Finalization

/-!
# Window — Following

What one honest answer does for a search.  A task asks for addresses at heights at which the search
looks at them, and the tasks that follow from its answer do so, too (`Search.Fits.of_mem_children`).
What a task, or one that may follow from it, is still to find is found in its answer or left to a
task that follows (`Search.Fits.accepted_or_awaits`): nothing falls between the two.
-/

namespace WatchWallet

/-- The plan of a scan asks for what a search looks at. -/
structure Plan.Serves (p : Plan) (s : Search) : Prop where
  addresses : p.addresses = s.addresses
  gap : p.gap = s.gap
  gap_pos : 0 < s.gap

/-- The task, or one that may follow from it, asks for an address with its index at a height. -/
structure Task.Awaits (t : Task) (c : Chain) (i : Nat) (a : String) (x : Nat) : Prop where
  chain : t.chain = c
  lo_le : t.lo ≤ x
  le_hi : x ≤ t.hi
  mem_or_lt : a ∈ t.batch.addresses ∨ t.batch.isGap = true ∧ t.batch.last < i

/-- The task asks for addresses that the search looks at from its first height on. -/
structure Search.Fits (s : Search) (t : Task) : Prop where
  starts : s.blockchain.StartsAt t.start t.lo
  seen : ∀ a ∈ t.batch.addresses, ∃ i, (s.addresses t.chain)[i]? = some a ∧
    s.Seen t.chain i t.lo
  /-- A gap task starts where its batch is first looked at. -/
  gap : t.batch.isGap = true → ∃ j, t.batch = s.batch t.chain j ∧ s.Watched t.chain j t.lo ∧
    ∀ y, s.Watched t.chain j y → t.lo ≤ y

namespace Task

variable {t : Task} {a : Answer}

/-- What a task accepts lies at its heights. -/
theorem height?_of_mem_accepted {f : Finding} (hjudge : t.judge a = .ok f) {tx : Transaction}
    (h : tx ∈ t.accepted f a) :
    tx ∈ a.transactions ∧ ∃ x, tx.height? = some x ∧ t.lo ≤ x ∧ x ≤ t.hi := by
  cases f with
  | quiet => cases h
  | active low high lastFull =>
      obtain ⟨hmem, hheight⟩ := List.mem_filter.1 h
      obtain ⟨x, hx, hle⟩ := (Option.any_eq_true _ _).1 hheight
      have hle : x ≤ min lastFull t.hi := of_decide_eq_true hle
      refine ⟨hmem, x, hx, ?_, Nat.le_trans hle (Nat.min_le_right ..)⟩
      obtain ⟨b, hb, rfl⟩ := Option.map_eq_some_iff.1 hx
      obtain ⟨hlow, -, hlo, -⟩ := judge_eq_active_iff.1 hjudge
      exact Nat.le_trans hlo
        ((Answer.lowest?_mem hlow).2 b (Answer.mem_blocks.2 ⟨tx, hmem, hb⟩))

end Task

namespace Search

variable {s : Search} {p : Plan} {t c : Task} {page : Nat} {a : Answer} {f : Finding}

/-- The batch of a gap task ends before the next gap batch. -/
theorem batch_last (hgap : 0 < s.gap) {chain : Chain} (j : Nat) :
    (s.batch chain j).last + 1 = s.used chain + (j + 1) * s.gap := by
  rw [Nat.succ_mul]
  show s.used chain + j * s.gap + s.gap - 1 + 1 = _
  omega

theorem batch_last_le_iff (hgap : 0 < s.gap) {chain : Chain} {j k : Nat} :
    (s.batch chain k).last ≤ (s.batch chain j).last ↔ k ≤ j := by
  rw [← Nat.add_le_add_iff_right (n := 1), batch_last hgap, batch_last hgap, Nat.add_le_add_iff_left,
    Nat.mul_le_mul_right_iff hgap, Nat.add_le_add_iff_right]

theorem batch_nextGap (hp : p.Serves s) {j : Nat} (hbatch : t.batch = s.batch t.chain j)
    (low : Block) : (t.nextGap p low).batch = s.batch t.chain (j + 1) := by
  rw [← nextGap_batch hp.gap_pos, ← hbatch, ← hp.addresses, ← hp.gap]
  rfl

/-- A task that asks for a gap batch from where the batch is first looked at. -/
theorem Fits.of_batch {j : Nat} (hbatch : t.batch = s.batch t.chain j)
    (hgap : 0 < s.gap) (hstarts : s.blockchain.StartsAt t.start t.lo)
    (hwatched : s.Watched t.chain j t.lo) (hfirst : ∀ y, s.Watched t.chain j y → t.lo ≤ y) :
    s.Fits t := by
  refine ⟨hstarts, fun b hb => ?_, fun _ => ⟨j, hbatch, hwatched, hfirst⟩⟩
  rw [hbatch] at hb
  obtain ⟨i, hi, hle, hlt⟩ := mem_batch.1 hb
  have hused : s.used t.chain ≤ i := Nat.le_trans (Nat.le_add_right ..) hle
  refine ⟨i, hi, hwatched.lo_le, .inr ?_⟩
  rwa [(div_eq_iff hgap hused).2 ⟨hle, hlt⟩]

/-- The tasks that follow from an honest answer fit the search. -/
theorem Fits.of_mem_children (hp : p.Serves s) (hf : s.Fits t)
    (ha : s.blockchain.Answers page t.batch.addresses t.lo a) (hjudge : t.judge a = .ok f)
    (hc : c ∈ t.children p f) : s.Fits c := by
  cases f with
  | quiet => cases hc
  | active low high lastFull =>
      have hknows := ha.active hjudge
      obtain ⟨⟨hisgap, rfl⟩ | ⟨hlt, rfl⟩, -⟩ := Task.mem_children_active.1 hc
      · obtain ⟨j, hbatch, hwatched, hfirst⟩ := hf.gap hisgap
        have hhits : s.Hits t.chain j low.height.toNat := by
          rw [Hits, ← hbatch]
          exact hknows.touched_low
        -- the next gap batch is searched from the first height at which this one is hit
        refine .of_batch (batch_nextGap hp hbatch low) hp.gap_pos
          (Blockchain.startsAt_hash hknows.header_low)
          (.next (hwatched.mono hknows.le_low) hhits (Nat.le_refl _)) fun y hy => ?_
        obtain ⟨z, hle, hz, hhit⟩ := hy.passed (Nat.lt_succ_self j)
        change s.blockchain.touching (s.batch t.chain j).addresses z ≠ [] at hhit
        rw [← hbatch] at hhit
        exact Nat.le_trans (hknows.first (hfirst z hz) hhit) hle
      · obtain ⟨hheader, hle⟩ := hknows.rest hlt
        refine ⟨Blockchain.startsAt_hash hheader, fun b hb => ?_, fun hgap => ?_⟩
        · obtain ⟨i, hi, hseen⟩ := hf.seen b hb
          exact ⟨i, hi, hseen.mono (Nat.le_succ_of_le hle)⟩
        · cases hgap

/-- What a task accepts of an honest answer is found by the search with the chain of the task. -/
theorem Fits.found_of_mem_accepted (hf : s.Fits t)
    (ha : s.blockchain.Answers page t.batch.addresses t.lo a) (hjudge : t.judge a = .ok f)
    {tx : Transaction} (htx : tx ∈ t.accepted f a) {x : Nat} (hx : tx.height? = some x) :
    s.lo ≤ x ∧ x ≤ t.hi ∧ s.FoundWith t.chain x tx := by
  obtain ⟨hmem, y, hy, hlo, hhi⟩ := Task.height?_of_mem_accepted hjudge htx
  obtain rfl := Option.some.inj (hx.symm.trans hy)
  obtain ⟨k, -, hk⟩ := ha.mined_of_mem hmem
  obtain ⟨hmined, htouches⟩ := Blockchain.mem_touching.1 hk
  obtain rfl := Option.some.inj (hx.symm.trans (Blockchain.height?_of_mem_mined hmined))
  obtain ⟨b, hb, htouch⟩ := Transaction.touches_iff.1 htouches
  obtain ⟨i, hi, hseen⟩ := hf.seen b hb
  exact ⟨Nat.le_trans hseen.1 hlo, hhi, hmined, i, b, hi, hseen.mono hlo, htouch⟩

/-- A transaction at a known height that touches the batch is accepted. -/
theorem mem_accepted {low high : Block} {lastFull x : Nat} {tx : Transaction}
    (hknows : Blockchain.Answers.Knows s.blockchain t a low high lastFull) (hlo : t.lo ≤ x)
    (hfull : x ≤ lastFull) (hhi : x ≤ t.hi) (htx : tx ∈ s.blockchain.mined x)
    (htouches : tx.touches t.batch.addresses = true) :
    tx ∈ t.accepted (.active low high lastFull) a := by
  refine List.mem_filter.2 ⟨hknows.full hlo hfull hhi (Blockchain.mem_touching.2 ⟨htx, htouches⟩), ?_⟩
  rw [Blockchain.height?_of_mem_mined htx, Option.any_some, decide_eq_true_eq]
  exact Nat.le_min.2 ⟨hfull, hhi⟩

/-- What touches an address of the batch is accepted, or the same addresses are asked for again. -/
theorem accepted_or_awaits_of_mem (hpage : 1 ≤ page)
    (ha : s.blockchain.Answers page t.batch.addresses t.lo a) (hjudge : t.judge a = .ok f)
    {i x : Nat} {b : String} (hlo : t.lo ≤ x) (hhi : x ≤ t.hi) (hmem : b ∈ t.batch.addresses) :
    (∀ tx ∈ s.blockchain.mined x, tx.touches [b] = true → tx ∈ t.accepted f a) ∨
      ∃ c ∈ t.children p f, c.Awaits t.chain i b x := by
  have htouches : ∀ {tx : Transaction}, tx.touches [b] = true →
      tx.touches t.batch.addresses = true := fun htouch => Transaction.touches_iff.2 ⟨b, hmem, htouch⟩
  cases f with
  | quiet =>
      refine .inl fun tx htx htouch => ?_
      have hmatch := Blockchain.mem_touching.2 ⟨htx, htouches htouch⟩
      rw [ha.quiet hpage hjudge hlo] at hmatch
      cases hmatch
  | active low high lastFull =>
      have hknows := ha.active hjudge
      by_cases hfull : x ≤ lastFull
      · exact .inl fun tx htx htouch => mem_accepted hknows hlo hfull hhi htx (htouches htouch)
      · have hrest : lastFull < t.hi := by omega
        have hlive : (t.continuation high lastFull).isLive = true :=
          Task.isLive_iff.2 ⟨List.ne_nil_of_mem hmem, hrest⟩
        exact .inr ⟨_, Task.mem_children_active.2 ⟨.inr ⟨hrest, rfl⟩, hlive⟩, rfl,
          Nat.lt_of_not_le hfull, hhi, .inl hmem⟩

/-- When a gap batch behind the one of a task is looked at, the next gap batch is asked for. -/
theorem exists_nextGap (hp : p.Serves s) (hpage : 1 ≤ page)
    (ha : s.blockchain.Answers page t.batch.addresses t.lo a) (hjudge : t.judge a = .ok f)
    {j k x : Nat} (hbatch : t.batch = s.batch t.chain j)
    (hfirst : ∀ y, s.Watched t.chain j y → t.lo ≤ y) (hlt : j < k) (hw : s.Watched t.chain k x)
    (hhi : x ≤ t.hi) (hlen : s.used t.chain + k * s.gap < (s.addresses t.chain).length) :
    ∃ c ∈ t.children p f, c.chain = t.chain ∧ c.batch = s.batch t.chain (j + 1) ∧ c.lo ≤ x ∧
      c.hi = t.hi := by
  -- the batch behind is looked at because the batch of this task is hit, at its heights
  obtain ⟨y, hle, hwy, hhit⟩ := hw.passed hlt
  rw [Hits, ← hbatch] at hhit
  cases f with
  | quiet => exact absurd (ha.quiet hpage hjudge (hfirst y hwy)) hhit
  | active low high lastFull =>
      have hlow : low.height.toNat ≤ x :=
        Nat.le_trans ((ha.active hjudge).first (hfirst y hwy) hhit) hle
      have hgap := hp.gap_pos
      have hmul : (j + 1) * s.gap ≤ k * s.gap := Nat.mul_le_mul_right _ hlt
      have hlive : (t.nextGap p low).isLive = true := by
        refine Task.isLive_iff.2 ⟨?_, Nat.le_trans hlow hhi⟩
        rw [batch_nextGap hp hbatch low]
        refine List.ne_nil_of_mem (mem_batch.2 ⟨s.used t.chain + (j + 1) * s.gap,
          List.getElem?_eq_getElem (by omega), Nat.le_refl _, ?_⟩)
        rw [Nat.succ_mul (j + 1)]
        omega
      have hisgap : t.batch.isGap = true := hbatch ▸ rfl
      exact ⟨_, Task.mem_children_active.2 ⟨.inl ⟨hisgap, rfl⟩, hlive⟩, rfl,
        batch_nextGap hp hbatch low, hlow, rfl⟩

/-- An address behind the gap batch is left to the next gap task. -/
theorem Fits.awaits_of_gap (hp : p.Serves s) (hf : s.Fits t) (hpage : 1 ≤ page)
    (ha : s.blockchain.Answers page t.batch.addresses t.lo a) (hjudge : t.judge a = .ok f)
    {i x : Nat} {b : String} (hb : (s.addresses t.chain)[i]? = some b)
    (hseen : s.Seen t.chain i x) (hhi : x ≤ t.hi) (hisgap : t.batch.isGap = true)
    (hlast : t.batch.last < i) : ∃ c ∈ t.children p f, c.Awaits t.chain i b x := by
  obtain ⟨j, hbatch, -, hfirst⟩ := hf.gap hisgap
  have hbehind : s.used t.chain + (j + 1) * s.gap ≤ i := by
    rw [← batch_last hp.gap_pos, ← hbatch]
    exact hlast
  have hw : s.Watched t.chain ((i - s.used t.chain) / s.gap) x :=
    hseen.2.resolve_left (Nat.not_lt.2 (Nat.le_trans (Nat.le_add_right ..) hbehind))
  have hlt : j + 1 ≤ (i - s.used t.chain) / s.gap :=
    (Nat.le_div_iff_mul_le hp.gap_pos).2 (Nat.le_sub_of_add_le' hbehind)
  have hlen : s.used t.chain + (i - s.used t.chain) / s.gap * s.gap <
      (s.addresses t.chain).length := by
    have hle := Nat.div_mul_le_self (i - s.used t.chain) s.gap
    have hi := (List.getElem?_eq_some_iff.1 hb).1
    omega
  obtain ⟨c, hc, hchain, hnext, hlo, hend⟩ :=
    exists_nextGap hp hpage ha hjudge hbatch hfirst hlt hw hhi hlen
  refine ⟨c, hc, hchain, hlo, hend ▸ hhi, ?_⟩
  rw [hnext]
  by_cases hin : i < s.used t.chain + (j + 1 + 1) * s.gap
  · exact .inl (mem_batch.2 ⟨i, hb, hbehind, hin⟩)
  · refine .inr ⟨rfl, ?_⟩
    rw [← batch_last hp.gap_pos] at hin
    omega

/-- **Nothing falls between an answer and the tasks that follow from it.** -/
theorem Fits.accepted_or_awaits (hp : p.Serves s) (hf : s.Fits t) (hpage : 1 ≤ page)
    (ha : s.blockchain.Answers page t.batch.addresses t.lo a) (hjudge : t.judge a = .ok f)
    {chain : Chain} {i x : Nat} {b : String} (hb : (s.addresses chain)[i]? = some b)
    (hseen : s.Seen chain i x) (hawaits : t.Awaits chain i b x) :
    (∀ tx ∈ s.blockchain.mined x, tx.touches [b] = true → tx ∈ t.accepted f a) ∨
      ∃ c ∈ t.children p f, c.Awaits chain i b x := by
  obtain ⟨rfl, hlo, hhi, hmem | ⟨hisgap, hlast⟩⟩ := hawaits
  · exact accepted_or_awaits_of_mem hpage ha hjudge hlo hhi hmem
  · exact .inr (hf.awaits_of_gap hp hpage ha hjudge hb hseen hhi hisgap hlast)

end Search
end WatchWallet
