import WatchWallet.Proofs.Window.Completeness
import WatchWallet.Proofs.Window.Exchanges

/-!
# Window — Overflow

When a synchronization overflows.  It never does, whatever the explorer answers, when every chain leaves
room for two more gaps among the positions of 32 bits (`Window.synchronize_ne_overflow`).  With an
honest explorer it is the search that decides: a gap batch is derived after every one that the search
continues from (`Search.Continues`, `Run.Derives`), and an answer overflows where the search leaves its
range (`Search.InRange`).
-/

namespace WatchWallet

/-! ### Whatever the explorer answers -/

/-- Every chain leaves room for two more gaps among the positions of 32 bits. -/
def Chains.HasRoom (cs : Chains) (gap : Nat) : Prop :=
  ∀ c, (cs.get c).addresses.length + 2 * gap < UInt32.size

namespace Task

variable {p : Plan} {t c : Task} {f : Finding}

theorem overflows_active_iff {low high : Block} {lastFull : Nat} :
    t.overflows p (.active low high lastFull) = true ↔
      t.batch.isGap = true ∧ UInt32.size ≤ t.batch.last + 1 + p.gap := by
  simp [overflows, Batch.nextFits, Batch.fits]

/-- A gap task asks for addresses of its chain, as many as the gap is wide. -/
def GapWide (p : Plan) (t : Task) : Prop :=
  t.batch.isGap = true → ∃ first, t.batch = .derive (p.addresses t.chain) first p.gap .gap

theorem gapWide_of_mem_children (hc : c ∈ t.children p f) : c.GapWide p := by
  cases f with
  | quiet => cases hc
  | active low high lastFull =>
      obtain ⟨⟨-, rfl⟩ | ⟨-, rfl⟩, -⟩ := mem_children_active.1 hc
      · exact fun _ => ⟨_, rfl⟩
      · intro hisgap
        cases hisgap

/-- A task that asks for something starts within its chain, so the next gap batch fits in the room behind
the chain. -/
theorem overflows_eq_false (hlive : t.isLive = true) (hwide : t.GapWide p)
    (hroom : (p.addresses t.chain).length + 2 * p.gap < UInt32.size) (f : Finding) :
    t.overflows p f = false := by
  cases f with
  | quiet => rfl
  | active low high lastFull =>
      refine Bool.eq_false_iff.2 fun hover => ?_
      obtain ⟨hisgap, hover⟩ := overflows_active_iff.1 hover
      obtain ⟨first, hbatch⟩ := hwide hisgap
      have hne := (isLive_iff.1 hlive).1
      rw [hbatch] at hne hover
      have hfirst := (Batch.lt_length_of_derive_ne_nil hne).1
      have hlast : (Batch.derive (p.addresses t.chain) first p.gap .gap).last = first + p.gap - 1 := rfl
      omega

end Task

namespace Run

variable {p : Plan} {replies : Replies} {w : Window} {config : SyncConfig} {first : Option String}
  {lo hi : Nat} {r r' : Run}

/-- The tasks that are out ask for something, and the gap tasks for a whole gap. -/
def Wide (p : Plan) (r : Run) : Prop := ∀ t ∈ r.out, t.isLive = true ∧ t.GapWide p

theorem Wide.step (hr : r.Wide p) (h : Step p replies r r') : r'.Wide p := by
  cases h.effect with
  | @answer before after t a f _ _ hout hout' =>
      intro c hc
      rw [hout', List.mem_append, List.mem_append] at hc
      rcases hc with (hc | hc) | hc
      · exact hr c (hout ▸ List.mem_append_left _ hc)
      · exact ⟨Task.isLive_of_mem_children hc, Task.gapWide_of_mem_children hc⟩
      · exact hr c (hout ▸ List.mem_append_right _ (List.mem_cons_of_mem _ hc))
  | store hout | none hout =>
      unfold Wide
      rwa [hout]

theorem wide_of_steps (h : Steps (w.plan config) replies (start w config first lo hi) r) :
    r.Wide (w.plan config) := by
  refine h.keep (P := Wide (w.plan config)) Wide.step fun t ht => ?_
  obtain ⟨⟨c, batch, hbatch, rfl⟩, hlive⟩ := Window.mem_bootstrap.1 ht
  refine ⟨hlive, fun hisgap => ?_⟩
  rcases List.mem_append.1 hbatch with hregular | hgap
  · obtain ⟨i, -, rfl⟩ := List.mem_map.1 hregular
    cases hisgap
  · exact ⟨_, List.mem_singleton.1 hgap⟩

end Run

/-- **With room behind its chains, a synchronization does not overflow**, whatever the explorer answers. -/
theorem Window.synchronize_ne_overflow {σ : Type} (w : Window) (explorer : Explorer σ)
    {config : SyncConfig} (hroom : w.chains.HasRoom config.gapSize.toNat) (first : Option String)
    (lo hi : Nat) (s : σ) :
    (w.synchronize explorer config first lo hi s).1 ≠ .error .overflow := by
  intro hover
  rcases hrun : w.synchronize explorer config first lo hi s with ⟨result, w', s'⟩
  obtain rfl : result = .error .overflow := by rw [hrun] at hover; exact hover
  rcases Nat.lt_or_ge hi lo with hlt | hle
  · rw [w.synchronize_of_lt explorer config first hlt] at hrun
    cases hrun
  have hkeeps : explorer.Keeps fun _ _ _ => True := fun _ => trivial
  obtain ⟨r, joined, hsteps, -, -, -, hends, hresult⟩ :=
    Run.ends_of_synchronize hkeeps explorer.tells_true trivial hle hrun
  cases hends with
  | unfit hfits _ _ =>
      obtain ⟨c, -, hunfit⟩ := List.all_eq_false.1 hfits
      refine hunfit (decide_eq_true ?_)
      have hused := (w.chains.get c).used_le
      have := hroom c
      omega
  | done _ _ _ =>
      rw [outcome] at hresult
      rcases hflushed : (r.scan.store.flush w.disk).1 with e | u <;> rw [hflushed] at hresult <;>
        cases hresult
  | @failed t before _ stop hmem _ hfail =>
      obtain rfl : Stop.overflow = stop := Except.error.inj hresult
      obtain ⟨f, hoverflows⟩ := Task.exists_overflows (Scan.failure?_of_ask hfail).2
      obtain ⟨hlive, hwide⟩ := Run.wide_of_steps hsteps t hmem
      cases hoverflows.symm.trans (Task.overflows_eq_false hlive hwide (hroom t.chain) f)

/-! ### With an honest explorer -/

namespace Search

variable {s : Search} {p : Plan} {t : Task} {c : Chain} {hi : Nat}

/-- A search through the height `hi` looks at the gap batch with a number, and something touches it from
there on, be it above `hi`: so the next gap batch is derived. -/
def Continues (s : Search) (c : Chain) (hi j : Nat) : Prop :=
  ∃ x y, s.Watched c j x ∧ x ≤ hi ∧ x ≤ y ∧ s.Hits c j y

/-- The position behind every gap batch that a search through the height `hi` derives is a number of
32 bits. -/
structure InRange (s : Search) (hi : Nat) : Prop where
  first : ∀ c, s.used c + s.gap < UInt32.size
  next : ∀ {c j}, s.Continues c hi j → s.used c + (j + 2) * s.gap < UInt32.size

/-- A gap batch that is hit starts within its chain. -/
theorem Continues.lt_length {j : Nat} (h : s.Continues c hi j) :
    s.used c + j * s.gap < (s.addresses c).length := by
  obtain ⟨-, y, -, -, -, hhit⟩ := h
  have hne : (s.batch c j).addresses ≠ [] := by
    obtain ⟨tx, htx⟩ := List.exists_mem_of_ne_nil _ hhit
    obtain ⟨a, ha, -⟩ := Transaction.touches_iff.1 (Blockchain.mem_touching.1 htx).2
    exact List.ne_nil_of_mem ha
  exact (Batch.lt_length_of_derive_ne_nil hne).1

theorem inRange_of_length (hgap : 0 < s.gap) (hused : ∀ c, s.used c ≤ (s.addresses c).length)
    (hroom : ∀ c, (s.addresses c).length + 2 * s.gap ≤ UInt32.size) : s.InRange hi where
  first c := by
    have := hused c
    have := hroom c
    omega
  next {c j} h := by
    have hlt := h.lt_length
    have := hroom c
    rw [Nat.add_mul]
    omega

/-- An answer about a gap batch of the search overflows when the next one lies beyond 32 bits. -/
theorem overflows_iff {low high : Block} {lastFull j : Nat} (hp : p.Serves s)
    (hbatch : t.batch = s.batch t.chain j) : t.overflows p (.active low high lastFull) = true ↔
      UInt32.size ≤ s.used t.chain + (j + 2) * s.gap := by
  have hlast : t.batch.last + 1 + p.gap = s.used t.chain + (j + 2) * s.gap := by
    rw [hbatch, batch_last hp.gap_pos, hp.gap, Nat.succ_mul (j + 1), Nat.add_assoc]
  rw [Task.overflows_active_iff, hlast, hbatch]
  exact and_iff_right rfl

/-- An honest answer overflows where the search leaves its range. -/
theorem Fits.exists_continues {page : Nat} {a : Answer} {f : Finding} (hp : p.Serves s)
    (hf : s.Fits t) (hle : t.lo ≤ hi) (ha : s.blockchain.Answers page t.batch.addresses t.lo a)
    (hjudge : t.judge a = .ok f) (hover : t.overflows p f = true) :
    ∃ j, s.Continues t.chain hi j ∧ UInt32.size ≤ s.used t.chain + (j + 2) * s.gap := by
  cases f with
  | quiet => cases hover
  | active low high lastFull =>
      obtain ⟨j, hbatch, hwatched, -⟩ := hf.gap (Task.overflows_active_iff.1 hover).1
      have hknows := ha.active hjudge
      have hhits : s.Hits t.chain j low.height.toNat := by
        rw [Hits, ← hbatch]
        exact hknows.touched_low
      exact ⟨j, ⟨t.lo, low.height.toNat, hwatched, hle, hknows.le_low, hhits⟩,
        (overflows_iff hp hbatch).1 hover⟩

/-- The answer about a gap batch that the search continues from is not quiet, so when it is taken in the
next one is in range. -/
theorem Continues.lt_size {page j : Nat} {a : Answer} {f : Finding}
    (hcontinues : s.Continues t.chain hi j) (hp : p.Serves s) (hpage : 1 ≤ page)
    (ha : s.blockchain.Answers page t.batch.addresses t.lo a) (hjudge : t.judge a = .ok f)
    (hfits : t.overflows p f = false) (hbatch : t.batch = s.batch t.chain j)
    (hfirst : ∀ x, s.Watched t.chain j x → t.lo ≤ x) :
    s.used t.chain + (j + 2) * s.gap < UInt32.size := by
  obtain ⟨x, y, hw, -, hle, hhit⟩ := hcontinues
  rw [Hits, ← hbatch] at hhit
  cases f with
  | quiet => exact absurd (ha.quiet hpage hjudge (Nat.le_trans (hfirst x hw) hle)) hhit
  | active low high lastFull =>
      exact Nat.not_le.1 fun hover => Bool.eq_false_iff.1 hfits ((overflows_iff hp hbatch).2 hover)

end Search

namespace Run

variable {s : Search} {p : Plan} {page lo hi : Nat} {r r' : Run}

/-- After every gap batch that the search continues from, the next one was derived in range, or a gap
task that is out leads there. -/
def Derives (s : Search) (hi : Nat) (r : Run) : Prop :=
  ∀ c j, s.Continues c hi j → s.used c + (j + 2) * s.gap < UInt32.size ∨
    ∃ t ∈ r.out, t.chain = c ∧ t.batch.isGap = true ∧ t.batch.last ≤ (s.batch c j).last

theorem Derives.step (hp : p.Serves s) (hpage : 1 ≤ page) (hr : Derives s hi r) (he : Exact s hi r)
    (hs : Sound lo hi r) (h : Step p (s.blockchain.replies page) r r') : Derives s hi r' := by
  cases h.effect with
  | @answer before after t a f hreply hjudge hout hout' _ _ _ _ _ hfits =>
      intro c j hcontinues
      rcases hr c j hcontinues with hlt | ⟨t', ht', rfl, hisgap, hlast⟩
      · exact .inl hlt
      rcases eq_or_mem_out hout hout' ht' with rfl | hstays
      · have hfitting := he.fits t' ht'
        have hhonest := hreply t'.lo hfitting.starts
        obtain ⟨k, hbatch, -, hfirst⟩ := hfitting.gap hisgap
        rw [hbatch, Search.batch_last_le_iff hp.gap_pos] at hlast
        rcases Nat.lt_or_eq_of_le hlast with hlt | rfl
        · -- the task leads to the next gap batch, which is still no later than this one
          obtain ⟨x, -, hw, hhi, -, -⟩ := id hcontinues
          obtain ⟨d, hd, hchain, hnext, -, -⟩ := Search.exists_nextGap hp hpage hhonest hjudge hbatch
            hfirst hlt hw ((hs.out_within t' ht').2.2.symm ▸ hhi) hcontinues.lt_length
          have hlaunched : d ∈ r'.out := by
            rw [hout']
            exact List.mem_append_left _ (List.mem_append_right _ hd)
          exact .inr ⟨d, hlaunched, hchain, hnext ▸ rfl,
            hnext ▸ (Search.batch_last_le_iff hp.gap_pos).2 hlt⟩
        · -- this is the task of the batch, and its answer is not quiet
          exact .inl (hcontinues.lt_size hp hpage hhonest hjudge hfits hbatch hfirst)
      · exact .inr ⟨t', hstays, rfl, hisgap, hlast⟩
  | store hout | none hout =>
      unfold Derives
      rwa [hout]

variable {w : Window} {config : SyncConfig} {b : Blockchain} {first : Option String}

theorem derives_start (hvalid : config.Valid) :
    Derives (w.search config b lo) hi (start w config first lo hi) := by
  intro c j hcontinues
  have hlen := hcontinues.lt_length
  obtain ⟨x, -, hw, hhi, -, -⟩ := hcontinues
  have hgap := hvalid.gapSize_pos
  have hne : (Batch.derive (w.chains.get c).addresses (w.chains.get c).used config.gapSize.toNat
      .gap).addresses ≠ [] := by
    have hused : (w.chains.get c).used < (w.chains.get c).addresses.length :=
      Nat.lt_of_le_of_lt (Nat.le_add_right ..) hlen
    exact List.ne_nil_of_mem (Batch.mem_derive.2
      ⟨_, List.getElem?_eq_getElem hused, Nat.le_refl _, by omega⟩)
  refine .inr ⟨⟨c, _, first, lo, hi⟩, Window.mem_bootstrap.2 ⟨⟨c, _, List.mem_append_right _
    (List.mem_singleton.2 rfl), rfl⟩, Task.isLive_iff.2 ⟨hne, Nat.le_trans hw.lo_le hhi⟩⟩, rfl, rfl, ?_⟩
  exact Nat.sub_le_sub_right (Nat.add_le_add_right (Nat.le_add_right ..) _) 1

theorem derives_of_steps (hvalid : config.Valid) (hpage : 1 ≤ page) (hfirst : b.StartsAt first lo)
    (h : Steps (w.plan config) (b.replies page) (start w config first lo hi) r) :
    Derives (w.search config b lo) hi r := by
  have hp := w.serves hvalid b lo
  refine (h.keep (P := fun r => Steps (w.plan config) (b.replies page)
    (start w config first lo hi) r ∧ Derives (w.search config b lo) hi r) (fun hr hstep => ?_)
    ⟨.refl _, derives_start hvalid⟩).2
  have hcomplete := complete_of_steps hvalid hpage hfirst hr.1
  exact ⟨hr.1.trans (.one hstep), hr.2.step hp hpage hcomplete.exact hcomplete.sound hstep⟩

end Run
end WatchWallet
