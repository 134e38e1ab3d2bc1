import WatchWallet.Proofs.Window.Overflow
import WatchWallet.Proofs.Window.Requests

/-!
# Window — Acceptance

An honest explorer is never accused.  Every task that is out names the block at its first height, so
nothing in an honest answer lies below it; and an answer that is cut at this height would hold a whole
page of transactions of one block (`Blockchain.Answers.exists_judge`).  When no block holds that many
transactions of the account, nothing but an overflow stops a run before no task is out, and it
overflows exactly when its search leaves its range (`Window.honest_accepted`).
-/

namespace WatchWallet

/-- A task that asks from the block at its first height on. -/
def Task.NamesStart (b : Blockchain) (t : Task) : Prop :=
  ∃ header, b.header? t.lo = some header ∧ t.start = some header.hash

/-- The explorer has an honest answer to every request from a block of the chain on. -/
def Explorer.Serves {σ : Type} (explorer : Explorer σ) (b : Blockchain) (page : Nat) : Prop :=
  ∀ addresses {start h}, b.StartsAt start h → ∀ s,
    ∃ a, (explorer.transactions addresses start s).1 = .ok a ∧ b.Answers page addresses h a

theorem Explorer.Serves.keeps {σ : Type} {explorer : Explorer σ} {b : Blockchain} {page : Nat}
    (h : explorer.Serves b page) : explorer.Keeps (b.replies page) := by
  intro addresses start s a s' hasked h' hstart
  obtain ⟨a', hreply, hanswers⟩ := h addresses hstart s
  rw [hasked] at hreply
  obtain rfl := Except.ok.inj hreply
  exact hanswers

namespace Blockchain

variable {c : Blockchain} {page : Nat} {a : Answer} {t : Task}

theorem startHeight?_of_startsAt {start : Option String} {h : Nat} (hstart : c.StartsAt start h) :
    c.startHeight? start = some h := by
  cases hfound : c.startHeight? start with
  | some k => rw [hstart.unique (startsAt_of_startHeight? hfound)]
  | none =>
      cases start with
      | none => cases hfound
      | some hash =>
          obtain ⟨header, hheader, rfl⟩ := hstart
          obtain ⟨b, hb, rfl⟩ := Option.map_eq_some_iff.1 hheader
          have hother := List.findIdx?_eq_none_iff.1 hfound b (List.mem_of_getElem? hb)
          rw [beq_self_eq_true] at hother
          cases hother

/-- The explorer that never fails answers all these requests. -/
theorem serves_explorer (c : Blockchain) (page : Nat) : (c.explorer page).Serves c page := by
  intro addresses start h hstart s
  refine ⟨c.answer page addresses h, ?_, c.answers_answer page addresses h⟩
  simp only [explorer, startHeight?_of_startsAt hstart]

/-- A cut answer fills its page. -/
theorem Answers.length_eq_of_truncated {addresses : List String} {h : Nat}
    (ha : c.Answers page addresses h a) (hcut : a.truncated = true) :
    a.transactions.Nodup ∧ a.transactions.length = page := by
  obtain ⟨all, hperm, -, rfl⟩ := ha
  have hlong : page < all.length := of_decide_eq_true hcut
  refine ⟨?_, List.length_take_of_le (Nat.le_of_lt hlong)⟩
  exact (hperm.nodup_iff.2 ((c.nodup_onwards h).filter _)).sublist (List.take_sublist page all)

/-- **An honest answer keeps to the contract**, unless the block at the first height of the task fills a
page. -/
theorem Answers.exists_judge (ha : c.Answers page t.batch.addresses t.lo a)
    (hfew : (c.touching t.batch.addresses t.lo).length < page) : ∃ f, t.judge a = .ok f := by
  cases hlow : a.lowest? with
  | none => exact ⟨_, Task.judge_eq_quiet_iff.2 (Answer.lowest?_eq_none_iff.1 hlow)⟩
  | some low =>
      have hlowmem := (Answer.lowest?_mem hlow).1
      cases hhigh : a.highest? with
      | none =>
          rw [Answer.highest?_eq_none_iff.1 hhigh] at hlowmem
          cases hlowmem
      | some high =>
          have hle := (ha.header?_of_mem_blocks hlowmem).1
          cases hcut : a.truncated with
          | false => exact ⟨_, Task.judge_eq_active_iff.2 ⟨hlow, hhigh, hle, .inl ⟨hcut, rfl⟩⟩⟩
          | true =>
              refine ⟨_, Task.judge_eq_active_iff.2
                ⟨hlow, hhigh, hle, .inr ⟨hcut, fun hsingle => ?_, rfl⟩⟩⟩
              -- the whole page would be transactions of this one block
              obtain ⟨hnodup, hlength⟩ := ha.length_eq_of_truncated hcut
              have hsub : a.transactions ⊆ c.touching t.batch.addresses t.lo := by
                intro tx htx
                obtain ⟨k, hk, htouching⟩ := ha.mined_of_mem htx
                obtain ⟨header, hheader, hblock⟩ := block_of_mem_mined (mem_touching.1 htouching).1
                have hbelow := (Answer.highest?_mem hhigh).2 header
                  (Answer.mem_blocks.2 ⟨tx, htx, hblock⟩)
                rw [height_of_header? hheader] at hbelow
                obtain rfl : k = t.lo := by omega
                exact htouching
              have := (hnodup.subperm hsub).length_le
              omega

end Blockchain

namespace Run

variable {w : Window} {config : SyncConfig} {b : Blockchain} {first : Option String}
  {page lo hi : Nat} {p : Plan} {replies : Replies} {r r' : Run}

/-- What follows from an answer names the block that it starts at. -/
theorem start_isSome_of_steps {hash : String}
    (h : Steps p replies (start w config (some hash) lo hi) r) :
    ∀ t ∈ r.out, t.start.isSome = true := by
  refine h.keep (P := fun r => ∀ t ∈ r.out, t.start.isSome = true) (fun {r r'} hr hstep => ?_) ?_
  · cases hstep.effect with
    | @answer before after t a f _ _ hout hout' =>
        intro c hc
        rw [hout', List.mem_append, List.mem_append] at hc
        rcases hc with (hc | hc) | hc
        · exact hr c (hout ▸ List.mem_append_left _ hc)
        · cases f with
          | quiet => cases hc
          | active low high lastFull =>
              obtain ⟨⟨-, rfl⟩ | ⟨-, rfl⟩, -⟩ := Task.mem_children_active.1 hc <;> rfl
        · exact hr c (hout ▸ List.mem_append_right _ (List.mem_cons_of_mem _ hc))
    | store hout | none hout => rwa [hout]
  · intro t ht
    obtain ⟨⟨c, batch, -, rfl⟩, -⟩ := Window.mem_bootstrap.1 ht
    rfl

/-- **Every request names the block at its first height.** -/
theorem namesStart_of_steps {header : Block} (hvalid : config.Valid) (hpage : 1 ≤ page)
    (hfirst : b.header? lo = some header)
    (h : Steps (w.plan config) (b.replies page) (start w config (some header.hash) lo hi) r) :
    ∀ t ∈ r.launched, t.NamesStart b := by
  intro t ht
  obtain ⟨r₀, hsteps, hout⟩ := exists_steps_of_mem_launched h ht
  obtain ⟨hash, hhash⟩ := Option.isSome_iff_exists.1 (start_isSome_of_steps hsteps t hout)
  have hfits :=
    (complete_of_steps hvalid hpage (Blockchain.startsAt_hash hfirst) hsteps).exact.fits t hout
  have hstarts := hfits.starts
  rw [hhash] at hstarts
  obtain ⟨start, hstart, rfl⟩ := hstarts
  exact ⟨start, hstart, hhash⟩

/-- Every honest answer to a task that is out keeps to the contract. -/
theorem exists_judge_of_steps (hvalid : config.Valid) (hpage : 1 ≤ page)
    (hfirst : b.StartsAt first lo)
    (hfew : ∀ x, lo ≤ x → x ≤ hi →
      (b.touching (w.chains.receive.addresses ++ w.chains.change.addresses) x).length < page)
    (h : Steps (w.plan config) (b.replies page) (start w config first lo hi) r) {t : Task}
    (ht : t ∈ r.out) {a : Answer} (hreply : b.replies page t.batch.addresses t.start a) :
    ∃ f, t.judge a = .ok f := by
  have hr := complete_of_steps hvalid hpage hfirst h
  have hfits := hr.exact.fits t ht
  obtain ⟨hlo, hle, hend⟩ := hr.sound.out_within t ht
  refine (hreply t.lo hfits.starts).exists_judge
    (Nat.lt_of_le_of_lt (Blockchain.length_touching_le (fun x hx => ?_) t.lo)
      (hfew t.lo hlo (hend ▸ hle)))
  obtain ⟨i, hi, -⟩ := hfits.seen x hx
  have hmem := List.mem_of_getElem? hi
  cases hc : t.chain with
  | receive => rw [hc] at hmem; exact List.mem_append_left _ hmem
  | change => rw [hc] at hmem; exact List.mem_append_right _ hmem

/-- Every honest answer to a task that is out is taken in while the search is in range. -/
theorem exists_taken_of_steps (hvalid : config.Valid) (hpage : 1 ≤ page)
    (hfirst : b.StartsAt first lo)
    (hfew : ∀ x, lo ≤ x → x ≤ hi →
      (b.touching (w.chains.receive.addresses ++ w.chains.change.addresses) x).length < page)
    (h : Steps (w.plan config) (b.replies page) (start w config first lo hi) r) {t : Task}
    (ht : t ∈ r.out) {a : Answer} (hreply : b.replies page t.batch.addresses t.start a) :
    ∃ f, t.judge a = .ok f ∧
      ((w.search config b lo).InRange hi → t.overflows (w.plan config) f = false) := by
  obtain ⟨f, hjudge⟩ := exists_judge_of_steps hvalid hpage hfirst hfew h ht hreply
  refine ⟨f, hjudge, fun hrange => Bool.eq_false_iff.2 fun hover => ?_⟩
  have hr := complete_of_steps hvalid hpage hfirst h
  have hfits := hr.exact.fits t ht
  obtain ⟨-, hle, hend⟩ := hr.sound.out_within t ht
  obtain ⟨j, hcontinues, hlarge⟩ := hfits.exists_continues (w.serves hvalid b lo) (hend ▸ hle)
    (hreply t.lo hfits.starts) hjudge hover
  exact Nat.not_lt.2 hlarge (hrange.next hcontinues)

/-- A run goes on unless no task is out, when there is an answer that every task can take in. -/
theorem exists_step (hanswer : ∀ t ∈ r.out, ∃ a f, replies t.batch.addresses t.start a ∧
      t.judge a = .ok f ∧ t.overflows p f = false) :
    r.stage = .waiting ∧ r.out = [] ∨ ∃ r', Step p replies r r' := by
  obtain ⟨scan, out, stage, log⟩ := r
  cases stage with
  | waiting =>
      cases out with
      | nil => exact .inl ⟨rfl, rfl⟩
      | cons t after =>
          obtain ⟨a, f, hreply, hjudge, hfits⟩ := hanswer t List.mem_cons_self
          have hstep : Step p replies ⟨scan, [] ++ t :: after, .waiting, log⟩ _ :=
            .answer hreply hjudge hfits
          exact .inr ⟨_, hstep⟩
  | reporting t h =>
      rcases Nat.lt_or_ge t.hi h with hlt | hle
      · exact .inr ⟨_, .done hlt⟩
      · cases hlast : scan.tracker.isLast h with
        | false => exact .inr ⟨_, .report hle hlast⟩
        | true => exact .inr ⟨_, .complete hle hlast⟩
  | storing t h => exact .inr ⟨_, .store⟩
  | settling t h => exact .inr ⟨_, .settle⟩

end Run

namespace Window

/-- A synchronization in memory with honest answers does not fail; it succeeds when its search is in
range, and only then. -/
theorem outcome_of_serves {w w' : Window} {config : SyncConfig} {b : Blockchain} {first : Option String}
    {page lo hi : Nat} (hvalid : config.Valid) (hpage : 1 ≤ page) (hfirst : b.StartsAt first lo)
    (hfew : ∀ x, lo ≤ x → x ≤ hi →
      (b.touching (w.chains.receive.addresses ++ w.chains.change.addresses) x).length < page)
    {σ : Type} {explorer : Explorer σ} (hserves : explorer.Serves b page) {blocks : Blocks}
    (hstore : w.store = .memory blocks) (hle : lo ≤ hi) {s s' : σ} {result : Except Stop WindowStats}
    (hrun : w.synchronize explorer config first lo hi s = (result, w', s')) :
    (∀ e, result ≠ .error (.failed e)) ∧
      (result.isOk = true ↔ (w.search config b lo).InRange hi) := by
  obtain ⟨r, hsteps, -, -, hends⟩ := Run.ends_in_memory hserves.keeps hstore hle hrun
  rcases hends with ⟨hfits, hout, rfl⟩ | ⟨hunfit, rfl⟩ | ⟨t, ht, before, stop, hfail, rfl⟩
  · refine ⟨nofun, iff_of_true rfl ⟨fun c => ?_, fun {c j} hcontinues => ?_⟩⟩
    · have hfirst := List.all_eq_true.1 hfits c (by cases c <;> simp)
      exact of_decide_eq_true hfirst
    · rcases Run.derives_of_steps hvalid hpage hfirst hsteps c j hcontinues with hlt | ⟨t, ht, -⟩
      · exact hlt
      · rw [hout] at ht
        cases ht
  · refine ⟨nofun, iff_of_false Bool.false_ne_true fun hrange => ?_⟩
    obtain ⟨c, -, hunfit⟩ := List.all_eq_false.1 hunfit
    exact hunfit (decide_eq_true (hrange.first c))
  · obtain ⟨a, hreply, -⟩ := hserves t.batch.addresses
      ((Run.complete_of_steps hvalid hpage hfirst hsteps).exact.fits t ht).starts before
    obtain ⟨f, hjudge, hover⟩ := Run.exists_taken_of_steps hvalid hpage hfirst hfew hsteps ht
      (hserves.keeps (Prod.ext hreply rfl))
    rw [hreply, Task.failure?_of_judge hjudge] at hfail
    split at hfail
    · rename_i hoverflows
      cases hfail
      refine ⟨nofun, iff_of_false Bool.false_ne_true fun hrange => ?_⟩
      cases hoverflows.symm.trans (hover hrange)
    · cases hfail

/-- **An honest explorer is never accused.**  No block of the window holds a page of transactions of
the account.  In every state that a run reaches, every request so far names the block at the first
height that its batch is registered on, and every honest answer to a task that is out keeps to the
contract; while the search is in range, none overflows, and the run goes on until no task is out.  So a
synchronization in memory, with every explorer that has honest answers, however long they take, does
not fail; it succeeds exactly when its search is in range, and overflows otherwise.  Its requests are
such requests. -/
theorem honest_accepted {w : Window} {config : SyncConfig} {b : Blockchain} {page lo hi : Nat}
    {header : Block} (hvalid : config.validate = .ok ()) (hpage : 1 ≤ page)
    (hfirst : b.header? lo = some header)
    (hfew : ∀ x, lo ≤ x → x ≤ hi →
      (b.touching (w.chains.receive.addresses ++ w.chains.change.addresses) x).length < page) :
    (∀ {r}, Run.Steps (w.plan config) (b.replies page)
        (Run.start w config (some header.hash) lo hi) r →
      (∀ t ∈ r.launched, t.NamesStart b) ∧
      (∀ t ∈ r.out, ∀ a, b.replies page t.batch.addresses t.start a → ∃ f, t.judge a = .ok f ∧
        ((w.search config b lo).InRange hi → t.overflows (w.plan config) f = false)) ∧
      ((w.search config b lo).InRange hi →
        r.stage = .waiting ∧ r.out = [] ∨ ∃ r', Run.Step (w.plan config) (b.replies page) r r')) ∧
    ∀ {σ} {explorer : Explorer σ}, explorer.Serves b page → ∀ {blocks}, w.store = .memory blocks →
      ∀ s, ∃ result w' s' exchanges,
        w.synchronize explorer config (some header.hash) lo hi s = (result, w', s') ∧
        w.synchronize explorer.recorded config (some header.hash) lo hi (s, []) =
          (result, w', s', exchanges) ∧
        (∀ e, result ≠ .error (.failed e)) ∧
        (result.isOk = true ↔ (lo ≤ hi → (w.search config b lo).InRange hi)) ∧
        ∃ r, ∃ asked : List Task, Run.Steps (w.plan config) (b.replies page)
            (Run.start w config (some header.hash) lo hi) r ∧
          asked.Subperm r.launched ∧ exchanges.map Exchange.request = asked.map Task.request ∧
          ∀ t ∈ asked, t.NamesStart b := by
  have hvalid := SyncConfig.validate_eq_ok_iff.1 hvalid
  have hstart := Blockchain.startsAt_hash hfirst
  refine ⟨fun {r} hsteps => ⟨Run.namesStart_of_steps hvalid hpage hfirst hsteps, fun t ht a hreply => ?_,
    fun hrange => Run.exists_step fun t ht => ?_⟩, fun {σ explorer} hserves {blocks} hstore s => ?_⟩
  · exact Run.exists_taken_of_steps hvalid hpage hstart hfew hsteps ht hreply
  · have hfits := (Run.complete_of_steps hvalid hpage hstart hsteps).exact.fits t ht
    have hreply : b.replies page t.batch.addresses t.start
        (b.answer page t.batch.addresses t.lo) := by
      intro h hh
      rw [hh.unique hfits.starts]
      exact b.answers_answer page t.batch.addresses t.lo
    obtain ⟨f, hjudge, hover⟩ :=
      Run.exists_taken_of_steps hvalid hpage hstart hfew hsteps ht hreply
    exact ⟨_, f, hreply, hjudge, hover hrange⟩
  rcases Nat.lt_or_ge hi lo with hlt | hle
  · exact ⟨_, _, _, [], w.synchronize_of_lt explorer config _ hlt s,
      w.synchronize_of_lt explorer.recorded config _ hlt (s, []), nofun,
      iff_of_true rfl fun hle => absurd hlt (Nat.not_lt.2 hle), _, [], .refl _,
      List.nil_subperm, rfl, fun _ ht => absurd ht List.not_mem_nil⟩
  generalize hrun : w.synchronize explorer config (some header.hash) lo hi s = run
  obtain ⟨result, w', s'⟩ := run
  obtain ⟨hnever, hok⟩ := outcome_of_serves hvalid hpage hstart hfew hserves hstore hle hrun
  obtain ⟨exchanges, hrecorded, r, hsteps, -, -, hconcludes⟩ :=
    Run.exchanges_of_synchronize hserves.keeps hle hrun
  obtain ⟨asked, hasked, hrequests⟩ := hconcludes.exists_asked (Run.tracked_of_steps hsteps)
  exact ⟨result, w', s', exchanges, rfl, hrecorded, hnever, hok.trans ⟨fun h _ => h, fun h => h hle⟩, r,
    asked, hsteps, hasked, hrequests,
    fun t ht => Run.namesStart_of_steps hvalid hpage hfirst hsteps t (hasked.subset ht)⟩

/-- The first address is paid in every block but the first. -/
def fourBlocks : Blockchain where
  blocks := [paymentBlock ⟨"g", 0, .epoch⟩ [], paymentBlock ⟨"b", 1, .epoch⟩ [("t", ["a"])],
    paymentBlock ⟨"c", 2, .epoch⟩ [("u", ["a"])], paymentBlock ⟨"d", 3, .epoch⟩ [("v", ["a"])]]
  heights := by decide
  nodup_hashes := by decide
  block_eq := by decide
  nodup_transactions := by decide

/-- With two transactions on a page, the first answer is cut at the third block, whose hash the second
request about the address carries. -/
theorem honest_accepted_fourBlocks :
    let config : SyncConfig := ⟨0, 1, 1, 2, "g"⟩
    ∃ stats w' exchanges, ∃ asked : List Task, twoAddresses.synchronize
        (fourBlocks.explorer 2).recorded config (some "g") 0 3 ((), []) =
          (.ok stats, w', (), exchanges) ∧
      exchanges.map Exchange.request =
        [.transactions ["a"] (some "g"), .transactions ["z"] (some "b"),
          .transactions ["a"] (some "c")] ∧
      exchanges.map Exchange.request = asked.map Task.request ∧
      ∀ t ∈ asked, t.NamesStart fourBlocks := by
  intro config
  have hfirst : fourBlocks.header? 0 = some ⟨"g", 0, .epoch⟩ := rfl
  have hfew : ∀ x, 0 ≤ x → x ≤ 3 → (fourBlocks.touching (twoAddresses.chains.receive.addresses ++
      twoAddresses.chains.change.addresses) x).length < 2 := by
    intro x _ hx
    have hcases : x = 0 ∨ x = 1 ∨ x = 2 ∨ x = 3 := by omega
    rcases hcases with rfl | rfl | rfl | rfl <;> decide
  have hrequests : (twoAddresses.synchronize (fourBlocks.explorer 2).recorded config (some "g") 0 3
      ((), [])).2.2.2.map Exchange.request =
        [.transactions ["a"] (some "g"), .transactions ["z"] (some "b"),
          .transactions ["a"] (some "c")] := by decide +kernel
  have hvalid : config.validate = .ok () := rfl
  have hrange : (twoAddresses.search config fourBlocks 0).InRange 3 :=
    Search.inRange_of_length Nat.one_pos (fun c => (twoAddresses.chains.get c).used_le)
      fun c => by cases c <;> decide
  obtain ⟨result, w', _, exchanges, -, hrecorded, -, hok, -, asked, -, -, hasked, hnames⟩ :=
    (honest_accepted hvalid (Nat.le_succ 1) hfirst hfew).2 (fourBlocks.serves_explorer 2) rfl ()
  obtain ⟨stats, rfl⟩ : ∃ stats, result = .ok stats := by
    have hisok := hok.2 fun _ => hrange
    cases result with
    | error stop => cases hisok
    | ok stats => exact ⟨stats, rfl⟩
  rw [hrecorded] at hrequests
  exact ⟨stats, w', exchanges, asked, hrecorded, hrequests, hasked, hnames⟩

/-- Two addresses, synchronized with a gap of some width: the outcome and the requests. -/
def synchronizeWide (used : Nat) (gap : UInt32) : Except Stop WindowStats × List Request :=
  let w : Window := ⟨.stable, ⟨.ofList ["z", "a"] used, .ofList [] 0⟩, .memory .empty, .empty, []⟩
  let done := w.synchronize (fourBlocks.explorer 2).recorded ⟨0, 1, gap, 2, "g"⟩ (some "g") 0 3 ((), [])
  (done.1, done.2.2.2.map Exchange.request)

/-- A gap of almost 32 bits.  With a used address before it, the first gap batch cannot be derived, and
nothing is asked; with one half as wide, the answer that finds a payment overflows. -/
theorem honest_accepted_wideGap :
    synchronizeWide 1 4294967295 = (.error .overflow, []) ∧
      synchronizeWide 0 2147483648 = (.error .overflow, [.transactions ["z", "a"] (some "g")]) := by
  constructor <;> decide +kernel

end Window
end WatchWallet
