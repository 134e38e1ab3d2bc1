import Mathlib.Data.List.Permutation
import WatchWallet.Proofs.Window.Completeness
import WatchWallet.Proofs.Window.Exchanges

/-!
# Window — Gap limit

Which addresses a synchronization asks for.  With an honest explorer they are those that the search
looks at (`Run.Asks`): a gap batch is followed by the next one because something touches it, and it is
as wide as the gap, however far ahead the addresses lie that are paid along with it.  When activity
keeps to the gap, no used address is left out, and none of the gap after the last used one
(`Window.gap_limit`).  When it does not, the used count may pass addresses that nobody asks for
(`Window.gap_limit_paidAhead`).
-/

namespace WatchWallet

namespace Search

variable {s : Search} {c : Chain}

/-- An address is looked at as long as one that lies no more than a gap before it, or behind it, and
that is touched. -/
theorem seen_of_touched_near (hgap : 0 < s.gap) {i k hi x : Nat} {a : String}
    (hk : (s.addresses c)[k]? = some a) (hseen : s.Seen c k x) (hnew : s.used c ≤ k) (hhi : x ≤ hi)
    (htouched : s.blockchain.TouchedAt a x) (hnear : i ≤ k + s.gap) : s.Seen c i hi := by
  obtain ⟨hlo, hused | hwatched⟩ := hseen
  · omega
  refine ⟨Nat.le_trans hlo hhi, ?_⟩
  by_cases hold : i < s.used c
  · exact .inl hold
  obtain ⟨hk₁, hk₂⟩ := (div_eq_iff hgap hnew).1 rfl
  have hnext : s.Watched c ((k - s.used c) / s.gap + 1) hi :=
    .next hwatched (hits_of_touchedAt hk hk₁ hk₂ htouched) hhi
  have hle : (i - s.used c) / s.gap ≤ (k - s.used c) / s.gap + 1 := by
    rw [← Nat.add_div_right _ hgap]
    exact Nat.div_le_div_right (by omega)
  rcases Nat.lt_or_eq_of_le hle with hlt | heq
  · obtain ⟨y, hy, hw, -⟩ := hnext.passed hlt
    exact .inr (hw.mono hy)
  · exact .inr (heq ▸ hnext)

end Search

namespace Run

variable {s : Search} {p : Plan} {page lo hi : Nat} {r r' : Run}

/-- What the search looks at was asked for, or a task that is out awaits it; nothing else was asked
for. -/
structure Asks (s : Search) (hi : Nat) (r : Run) : Prop where
  asked_or_awaited : ∀ {c i a}, (s.addresses c)[i]? = some a → s.Seen c i hi →
    (∃ x ∈ r.answered, a ∈ x.task.batch.addresses) ∨ ∃ t ∈ r.out, t.Awaits c i a hi
  fits : ∀ x ∈ r.answered, s.Fits x.task ∧ x.task.lo ≤ hi

theorem Asks.step (hp : p.Serves s) (hpage : 1 ≤ page) (hasks : Asks s hi r) (he : Exact s hi r)
    (hs : Sound lo hi r) (h : Step p (s.blockchain.replies page) r r') : Asks s hi r' := by
  cases h.effect with
  | @answer before after t a f hreply hjudge hout hout' _ _ _ hanswered =>
      have ht : t ∈ r.out := hout ▸ List.mem_append_right _ List.mem_cons_self
      have hfits := he.fits t ht
      obtain ⟨-, hle, hend⟩ := hs.out_within t ht
      refine ⟨fun {c i b} hb hseen => ?_, fun x hx => ?_⟩
      · simp only [hanswered, List.mem_append, List.mem_singleton]
        rcases hasks.asked_or_awaited hb hseen with ⟨x, hx, hmem⟩ | ⟨t', ht', hawaits⟩
        · exact .inl ⟨x, .inl hx, hmem⟩
        rcases eq_or_mem_out hout hout' ht' with rfl | hstays
        · obtain ⟨rfl, -, hhi, hmem | ⟨hisgap, hlast⟩⟩ := hawaits
          · exact .inl ⟨_, .inr rfl, hmem⟩
          · obtain ⟨c, hc, hawaits⟩ := hfits.awaits_of_gap hp hpage (hreply t'.lo hfits.starts) hjudge
              hb hseen hhi hisgap hlast
            refine .inr ⟨c, ?_, hawaits⟩
            rw [hout']
            exact List.mem_append_left _ (List.mem_append_right _ hc)
        · exact .inr ⟨t', hstays, hawaits⟩
      · rw [hanswered, List.mem_append] at hx
        rcases hx with hx | hx
        · exact hasks.fits x hx
        · obtain rfl := List.mem_singleton.1 hx
          exact ⟨hfits, hend ▸ hle⟩
  | store hout _ _ _ hanswered | none hout _ _ _ hanswered =>
      constructor <;> rw [hanswered]
      · rw [hout]
        exact hasks.asked_or_awaited
      · exact hasks.fits

/-- When activity keeps to the gap, the search looks at the used addresses and the gap after them. -/
theorem Covers.seen_of_lt_used_add_gap (hgap : 0 < s.gap) (hc : Covers s hi r) {c : Chain}
    (hd : s.Disciplined c hi) (hle : s.lo ≤ hi) {i : Nat}
    (hi' : i < (r.scan.chains.get c).used + s.gap) : s.Seen c i hi := by
  by_cases hold : i < s.used c
  · exact ⟨hle, .inl hold⟩
  by_cases hfirst : i < s.used c + s.gap
  · refine ⟨hle, .inr ?_⟩
    rw [Nat.div_eq_of_lt (by omega)]
    exact .first hle
  -- an address from a gap before this one on was marked, so it was paid
  by_contra hunseen
  have hused : (r.scan.chains.get c).used ≤ i - s.gap := by
    refine hc.le_of_found (by omega) fun {x tx k a} hfound hx ha hpaid => ?_
    by_contra hfar
    obtain ⟨htx, j, d, -, hseen, -⟩ := hfound
    have htouched : s.blockchain.TouchedAt a x :=
      ⟨tx, htx, Transaction.touches_of_mem_paidAddresses hpaid⟩
    have hk := Search.seen_of_touchedAt hgap hd ha hseen.1 hx htouched
    exact hunseen (Search.seen_of_touched_near hgap ha hk (by omega) hx htouched (by omega))
  omega

variable {w : Window} {config : SyncConfig} {b : Blockchain} {first : Option String}

theorem asks_start (hvalid : config.Valid) :
    Asks (w.search config b lo) hi (start w config first lo hi) :=
  ⟨fun ha hseen => .inr (exists_awaits_start hvalid ha hseen.1 (Nat.le_refl _)),
    fun _ hx => absurd hx List.not_mem_nil⟩

theorem asks_of_steps (hvalid : config.Valid) (hpage : 1 ≤ page) (hfirst : b.StartsAt first lo)
    (h : Steps (w.plan config) (b.replies page) (start w config first lo hi) r) :
    Asks (w.search config b lo) hi r := by
  have hp := w.serves hvalid b lo
  refine (h.keep (P := fun r => Steps (w.plan config) (b.replies page)
    (start w config first lo hi) r ∧ Asks (w.search config b lo) hi r) (fun hr hstep => ?_)
    ⟨.refl _, asks_start hvalid⟩).2
  have hcomplete := complete_of_steps hvalid hpage hfirst hr.1
  exact ⟨hr.1.trans (.one hstep), hr.2.step hp hpage hcomplete.exact hcomplete.sound hstep⟩

end Run

namespace Window

variable {w w' : Window} {config : SyncConfig} {b : Blockchain} {first : Option String}
  {page lo hi : Nat} {σ : Type} {explorer : Explorer σ} {s s' : σ} {stats : WindowStats}

/-- **Which addresses a synchronization asks for.**  With an honest explorer, a synchronization that
succeeds has asked for the addresses that its search looks at, and no others.  When activity on a
chain keeps to the gap, it has asked for all addresses of the chain below the used count as it is
afterwards, and for the gap behind them. -/
theorem gap_limit (hvalid : config.validate = .ok ()) (hpage : 1 ≤ page)
    (hfirst : b.StartsAt first lo) (hle : lo ≤ hi) (hhonest : explorer.Keeps (b.replies page))
    (h : w.synchronize explorer config first lo hi s = (.ok stats, w', s')) :
    ∃ exchanges, w.synchronize explorer.recorded config first lo hi (s, []) =
        (.ok stats, w', s', exchanges) ∧
      (∀ a, (∃ x ∈ exchanges, a ∈ x.addresses) ↔
        ∃ c i, (w.chains.get c).addresses[i]? = some a ∧ (w.search config b lo).Seen c i hi) ∧
      ∀ c, (w.search config b lo).Disciplined c hi → ∀ {i a},
        (w.chains.get c).addresses[i]? = some a →
        i < (w'.chains.get c).used + config.gapSize.toNat → ∃ x ∈ exchanges, a ∈ x.addresses := by
  have hvalid := SyncConfig.validate_eq_ok_iff.1 hvalid
  obtain ⟨exchanges, hrecorded, r, hsteps, hstage, hleaves, hconcludes⟩ :=
    Run.exchanges_of_synchronize hhonest hle h
  have hcomplete := Run.complete_of_steps hvalid hpage hfirst hsteps
  have hasks := Run.asks_of_steps hvalid hpage hfirst hsteps
  have hjoined : r.out = [] ∧ exchanges = r.answered.map Answered.exchange := by
    generalize hresult : Except.ok stats = result at hconcludes
    cases hconcludes with
    | unfit _ _ => cases hresult
    | joined _ hout => exact ⟨hout, rfl⟩
    | failed _ _ => cases hresult
  obtain ⟨hout, rfl⟩ := hjoined
  have hseen : ∀ {c i a}, (w.chains.get c).addresses[i]? = some a →
      (w.search config b lo).Seen c i hi →
      ∃ x ∈ r.answered.map Answered.exchange, a ∈ x.addresses := by
    intro c i a ha hseen
    rcases hasks.asked_or_awaited ha hseen with ⟨x, hx, hmem⟩ | ⟨t, ht, -⟩
    · exact ⟨x.exchange, List.mem_map_of_mem hx, hmem⟩
    · rw [hout] at ht
      cases ht
  refine ⟨_, hrecorded, fun a => ⟨?_, ?_⟩, fun c hd {i a} ha hi' => hseen ha ?_⟩
  · rintro ⟨x, hx, hmem⟩
    obtain ⟨y, hy, rfl⟩ := List.mem_map.1 hx
    obtain ⟨hfits, hlow⟩ := hasks.fits y hy
    obtain ⟨i, ha, hsees⟩ := hfits.seen a hmem
    exact ⟨_, i, ha, hsees.mono hlow⟩
  · rintro ⟨c, i, ha, hsees⟩
    exact hseen ha hsees
  · rw [hleaves.chains] at hi'
    exact hcomplete.covers.seen_of_lt_used_add_gap hvalid.gapSize_pos hd hle hi'

/-- The third address is paid together with the first one, and once more in the next block. -/
def paidAhead : Blockchain where
  blocks := [paymentBlock ⟨"g", 0, .epoch⟩ [("t", ["a", "c"])],
    paymentBlock ⟨"h", 1, .epoch⟩ [("u", ["c"])]]
  heights := by decide
  nodup_hashes := by decide
  block_eq := by decide
  nodup_transactions := by decide

/-- Four addresses of which none is known to be used. -/
def fourAddresses : Window :=
  ⟨.stable, ⟨.ofList ["a", "b", "c", "d"] 0, .ofList [] 0⟩, .memory .empty, .empty, []⟩

/-- With two addresses in a gap batch, activity keeps to the gap, and every address is asked for. -/
theorem gap_limit_twoWide :
    let config : SyncConfig := ⟨0, 1, 2, 10, "g"⟩
    ∃ stats w' exchanges, fourAddresses.synchronize (paidAhead.explorer 10).recorded config (some "g")
        0 1 ((), []) = (.ok stats, w', (), exchanges) ∧
      (w'.chains.get .receive).used = 3 ∧
      ∀ a ∈ ["a", "b", "c", "d"], ∃ x ∈ exchanges, a ∈ x.addresses := by
  intro config
  have hd : (fourAddresses.search config paidAhead 0).Disciplined .receive 1 := by
    refine ⟨fun _ _ hlt => absurd hlt (Nat.not_lt_zero _), fun {i a x} ha hi hx htouched => ?_⟩
    have hlen : i < 4 := (List.getElem?_eq_some_iff.1 ha).1
    have hbehind : 2 ≤ i := hi
    obtain rfl | rfl : i = 2 ∨ i = 3 := by omega
    · exact ⟨0, "a", 0, Nat.le_refl _, by omega, rfl, Nat.zero_le x, _, List.mem_singleton.2 rfl,
        by decide⟩
    · obtain rfl : "d" = a := Option.some.inj ha
      obtain ⟨tx, htx, htouches⟩ := htouched
      obtain rfl | rfl : x = 0 ∨ x = 1 := by omega
      all_goals
        obtain rfl := List.mem_singleton.1 htx
        exact absurd htouches (by decide)
  have hok : (fourAddresses.synchronize (paidAhead.explorer 10) config (some "g") 0 1 ()).1.isOk =
      true := by decide +kernel
  have hused : ((fourAddresses.synchronize (paidAhead.explorer 10) config (some "g") 0 1
      ()).2.1.chains.get .receive).used = 3 := by decide +kernel
  generalize hrun : fourAddresses.synchronize (paidAhead.explorer 10) config (some "g") 0 1 () = run
    at hok hused
  obtain ⟨_ | stats, w', _⟩ := run
  · cases hok
  have hfirst : paidAhead.StartsAt (some "g") 0 := ⟨⟨"g", 0, .epoch⟩, rfl, rfl⟩
  obtain ⟨exchanges, hrecorded, -, hasked⟩ := gap_limit rfl (show 1 ≤ 10 by decide) hfirst
    (Nat.zero_le 1) (paidAhead.honest_explorer 10).keeps hrun
  refine ⟨stats, w', exchanges, hrecorded, hused, fun a ha => ?_⟩
  obtain ⟨i, hi⟩ := List.mem_iff_getElem?.1 ha
  have hlen : i < 4 := (List.getElem?_eq_some_iff.1 hi).1
  refine hasked .receive hd hi ?_
  show i < (w'.chains.get .receive).used + 2
  rw [hused]
  omega

/-- With one address in a gap batch, the used count passes the third address, which nobody asks for:
its second payment is not handed over. -/
theorem gap_limit_paidAhead :
    let config : SyncConfig := ⟨0, 1, 1, 10, "g"⟩
    ∃ stats w' exchanges, fourAddresses.synchronize (paidAhead.explorer 10).recorded config (some "g")
        0 1 ((), []) = (.ok stats, w', (), exchanges) ∧
      (w'.chains.get .receive).used = 3 ∧ exchanges.map (·.addresses) = [["a"], ["b"]] ∧
      (Journal.added .stable w'.journal).map FilledBlock.height = [0] := by
  intro config
  have hok : (fourAddresses.synchronize (paidAhead.explorer 10).recorded config (some "g") 0 1
      ((), [])).1.isOk = true := by decide +kernel
  have hused : ((fourAddresses.synchronize (paidAhead.explorer 10).recorded config (some "g") 0 1
      ((), [])).2.1.chains.get .receive).used = 3 := by decide +kernel
  have hasked : (fourAddresses.synchronize (paidAhead.explorer 10).recorded config (some "g") 0 1
      ((), [])).2.2.2.map (·.addresses) = [["a"], ["b"]] := by decide +kernel
  have hadded : (Journal.added .stable (fourAddresses.synchronize (paidAhead.explorer 10).recorded
      config (some "g") 0 1 ((), [])).2.1.journal).map FilledBlock.height = [0] := by decide +kernel
  generalize fourAddresses.synchronize (paidAhead.explorer 10).recorded config (some "g") 0 1 ((), []) =
    run at hok hused hasked hadded ⊢
  obtain ⟨_ | stats, w', _, exchanges⟩ := run
  · cases hok
  · exact ⟨stats, w', exchanges, rfl, hused, hasked, hadded⟩

end Window
end WatchWallet
