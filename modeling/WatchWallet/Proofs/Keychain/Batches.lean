import WatchWallet.Keychain.Batch

/-!
# Keychain — Batches

Which addresses the batches of a chain hold: those from one position on, as many as the batch is wide
(`mem_derive`).  The regular batches hold the used addresses, each at least once
(`exists_mem_regulars`), and no others (`mem_regulars`).
-/

namespace WatchWallet.Batch

/-- The addresses from a position on, up to a number of them. -/
theorem mem_slice {as : List String} {start count : Nat} {a : String} :
    a ∈ (as.drop start).take count ↔ ∃ i, as[i]? = some a ∧ start ≤ i ∧ i < start + count := by
  simp only [List.mem_iff_getElem?, List.getElem?_take, List.getElem?_drop]
  constructor
  · rintro ⟨n, hn⟩
    split at hn
    · exact ⟨_, hn, by omega, by omega⟩
    · cases hn
  · rintro ⟨i, hi, hle, hlt⟩
    refine ⟨i - start, ?_⟩
    rw [if_pos (by omega), Nat.add_sub_cancel' hle]
    exact hi

theorem mem_derive {chain : List String} {start count : Nat} {kind : BatchKind} {a : String} :
    a ∈ (derive chain start count kind).addresses ↔
      ∃ i, chain[i]? = some a ∧ start ≤ i ∧ i < start + count :=
  mem_slice

/-- A batch that asks for something starts at an address of the chain. -/
theorem lt_length_of_derive_ne_nil {chain : List String} {start count : Nat} {kind : BatchKind}
    (hne : (derive chain start count kind).addresses ≠ []) : start < chain.length ∧ 0 < count := by
  rw [derive, ne_eq, List.take_eq_nil_iff, List.drop_eq_nil_iff, not_or] at hne
  exact ⟨Nat.not_le.1 hne.2, Nat.pos_of_ne_zero hne.1⟩

/-- The numbers of the pieces of a width that something is cut into. -/
theorem lt_count_iff {width length i : Nat} (hwidth : 0 < width) :
    i < (length + width - 1) / width ↔ i * width < length := by
  rw [Nat.lt_div_iff_mul_lt hwidth]
  constructor <;> intro h <;> omega

theorem mem_regulars {chain : List String} {width used : Nat} (hwidth : 0 < width) {b : Batch} :
    b ∈ regulars chain width used ↔ ∃ i, i * width < used ∧
      b = derive chain (i * width) (min width (used - i * width)) .regular := by
  simp only [regulars, List.mem_map, List.mem_range, lt_count_iff hwidth]
  exact ⟨fun ⟨i, hi, he⟩ => ⟨i, hi, he.symm⟩, fun ⟨i, hi, he⟩ => ⟨i, hi, he.symm⟩⟩

/-- A regular batch holds used addresses only. -/
theorem lt_used_of_mem_regulars {chain : List String} {width used : Nat} (hwidth : 0 < width)
    {b : Batch} (hb : b ∈ regulars chain width used) {a : String} (ha : a ∈ b.addresses) :
    ∃ i, chain[i]? = some a ∧ i < used := by
  obtain ⟨j, hj, rfl⟩ := (mem_regulars hwidth).1 hb
  obtain ⟨i, hi, -, hlt⟩ := mem_derive.1 ha
  exact ⟨i, hi, by omega⟩

/-- The regular batches hold every used address. -/
theorem exists_mem_regulars {chain : List String} {width used i : Nat} {a : String}
    (hwidth : 0 < width) (ha : chain[i]? = some a) (hi : i < used) :
    ∃ b ∈ regulars chain width used, a ∈ b.addresses := by
  have hle : i / width * width ≤ i := Nat.div_mul_le_self i width
  have hlt : i < i / width * width + width := Nat.lt_div_mul_add hwidth
  refine ⟨_, (mem_regulars hwidth).2 ⟨i / width, by omega, rfl⟩, mem_derive.2 ⟨i, ha, hle, ?_⟩⟩
  omega

end WatchWallet.Batch
